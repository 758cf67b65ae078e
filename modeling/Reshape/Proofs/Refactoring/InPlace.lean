import Mathlib
import Reshape.Proofs.Refactoring.Signature

/-! # Parameters renamed in place

A removed parameter prefers the added one of its type at its own place, but the removed parameters
choose one after the other, and one that finds nothing at its place takes the first of its type.
This can be the parameter that a later one has at its place.  The main statement says when that
happens: a renaming in place is reported exactly if, before the place, no more parameters of the
type were removed than added. -/

namespace Reshape.ParameterChange

/-! ### The choice of one parameter -/

/-- The chosen parameter stands at the place that was looked for, or there is none of the type at
that place, and it is the first one. -/
theorem le_of_successor? {added : List (Parameter × Nat)} (hadded : InOrder added)
    {old new p : Parameter} {place taken i : Nat}
    (h : successor? added old place = some (new, taken)) (hp : (p, i) ∈ added)
    (htype : p.typeName = old.typeName) :
    taken = place ∨ place ≠ i ∧ taken ≤ i := by
  have hcandidate : (p, i) ∈ added.filter (·.1.typeName == old.typeName) :=
    List.mem_filter.2 ⟨hp, by simpa using htype⟩
  have hsorted : InOrder (added.filter (·.1.typeName == old.typeName)) :=
    hadded.sublist List.filter_sublist
  rw [successor?_eq] at h
  rcases Option.or_eq_some_iff.1 h with hfound | ⟨hnone, hhead⟩
  · exact Or.inl (by simpa using List.find?_some hfound)
  · have hplace : place ≠ i := by
      rintro rfl
      simpa using List.find?_eq_none.1 hnone _ hcandidate
    obtain ⟨rest, hrest⟩ := List.head?_eq_some_iff.1 hhead
    rw [hrest] at hcandidate hsorted
    refine Or.inr ⟨hplace, ?_⟩
    rcases List.mem_cons.1 hcandidate with heq | hlater
    · exact (congrArg Prod.snd heq).ge
    · exact (List.rel_of_pairwise_cons hsorted hlater).le

/-! ### What the earlier ones take -/

/-- The number of parameters of a type before a place. -/
def countBefore (type : Option String) (place : Nat) (parameters : List (Parameter × Nat)) : Nat :=
  parameters.countP fun (p, i) => p.typeName == type && decide (i < place)

theorem countBefore_cons (type : Option String) (place : Nat) (p : Parameter) (i : Nat)
    (rest : List (Parameter × Nat)) : countBefore type place ((p, i) :: rest) =
      countBefore type place rest + if p.typeName = type ∧ i < place then 1 else 0 := by
  simp [countBefore, List.countP_cons]

theorem countBefore_take {added : List (Parameter × Nat)} (hadded : InOrder added) {new : Parameter}
    {taken : Nat} (hnew : (new, taken) ∈ added) (type : Option String) (place : Nat) :
    countBefore type place added = countBefore type place (added.filter (·.2 != taken)) +
      if new.typeName = type ∧ taken < place then 1 else 0 := by
  rw [← countBefore_cons]
  exact (perm_take hadded.nodup hnew).countP_eq _

theorem countBefore_eq_zero {type : Option String} {place : Nat}
    {parameters : List (Parameter × Nat)}
    (h : ∀ p i, (p, i) ∈ parameters → p.typeName = type → place ≤ i) :
    countBefore type place parameters = 0 := by
  refine List.countP_eq_zero.2 ?_
  rintro ⟨p, i⟩ hp
  simpa using h p i hp

theorem countBefore_head {p : Parameter} {i : Nat} {rest : List (Parameter × Nat)}
    (h : InOrder ((p, i) :: rest)) (type : Option String) :
    countBefore type i ((p, i) :: rest) = 0 := by
  refine countBefore_eq_zero fun r j hr _ => ?_
  rcases List.mem_cons.1 hr with heq | hlater
  · exact (congrArg Prod.snd heq).ge
  · exact (List.rel_of_pairwise_cons h hlater).le

section Step

variable {added : List (Parameter × Nat)} (hadded : InOrder added) {old new q : Parameter}
  {place taken i : Nat} (h : successor? added old place = some (new, taken))

include hadded h

/-- A parameter whose turn it is takes the one of its type at its place. -/
theorem eq_of_successor?_in_place (hq : (q, place) ∈ added) (htype : q.typeName = old.typeName) :
    new = q := by
  have htaken : taken = place :=
    (le_of_successor? hadded h hq htype).elim id fun hne => absurd rfl hne.1
  exact congrArg Prod.fst (List.inj_on_of_nodup_map hadded.nodup (of_successor? h).1 hq htaken)

/-- An earlier parameter takes one before a later place, if it does not take the one at that
place. -/
theorem lt_of_successor? (hplace : place < i) (hq : (q, i) ∈ added)
    (htype : q.typeName = old.typeName) (htaken : taken ≠ i) : taken < i := by
  have hleast := le_of_successor? hadded h hq htype
  omega

/-- If an earlier parameter takes the one at a later place, there was none of the type before it. -/
theorem countBefore_of_successor?_in_place (hplace : place < taken) :
    countBefore old.typeName taken (added.filter (·.2 != taken)) = 0 := by
  refine countBefore_eq_zero fun r j hr htype => ?_
  have hleast := le_of_successor? hadded h (List.mem_of_mem_filter hr) htype
  omega

/-- What was taken is not taken again. -/
theorem notMem_renamed_of_successor? (hnew : (added.map Prod.fst).Nodup) (p : Parameter)
    (rest : List (Parameter × Nat)) :
    (p, new) ∉ (pairOff rest (added.filter (·.2 != taken))).renamed := by
  intro hin
  have hleft : new ∈ (added.filter (·.2 != taken)).map Prod.fst :=
    (perm_added rest (hadded.nodup.sublist (List.filter_sublist.map _))).subset
      (List.mem_append_left _ (List.mem_map.2 ⟨_, hin, rfl⟩))
  have hpairs := (perm_take hadded.nodup (of_successor? h).1).map Prod.fst
  exact (List.nodup_cons.1 (hpairs.nodup_iff.1 hnew)).1 hleft

end Step

/-- Each removed parameter of the type takes an added one before the place, as long as there are
any; the next one takes the parameter at the place. -/
theorem renamed_in_place_iff {removed added : List (Parameter × Nat)} (hremoved : InOrder removed)
    (hadded : InOrder added) (hold : (removed.map Prod.fst).Nodup)
    (hnew : (added.map Prod.fst).Nodup) {p q : Parameter} {i : Nat} (hp : (p, i) ∈ removed)
    (hq : (q, i) ∈ added) (htype : p.typeName = q.typeName) :
    (p, q) ∈ (pairOff removed added).renamed ↔
      countBefore p.typeName i removed ≤ countBefore p.typeName i added := by
  fun_induction pairOff removed added with
  | case1 added => cases hp
  | case2 old place rest added new taken h outcome ih =>
    obtain ⟨hmem, hchosen⟩ := of_successor? h
    obtain ⟨hlater, hrestOrder⟩ := List.pairwise_cons.1 hremoved
    obtain ⟨hfirst, hrestNodup⟩ := List.nodup_cons.1 hold
    rcases List.mem_cons.1 hp with heq | hrest
    · obtain ⟨rfl, rfl⟩ := Prod.mk.inj heq
      rw [countBefore_head hremoved, eq_of_successor?_in_place hadded h hq htype.symm]
      exact ⟨fun _ => Nat.zero_le _, fun _ => List.mem_cons_self⟩
    · have hplace : place < i := hlater _ hrest
      have hne : (p, q) ≠ (old, new) := by
        intro heq
        obtain ⟨rfl, -⟩ := Prod.mk.inj heq
        exact hfirst (List.mem_map.2 ⟨(p, i), hrest, rfl⟩)
      have hrenamed : (p, q) ∈ (old, new) :: outcome.renamed ↔ (p, q) ∈ outcome.renamed :=
        List.mem_cons.trans (or_iff_right hne)
      rw [hrenamed, countBefore_cons, countBefore_take hadded hmem]
      by_cases htaken : taken = i
      · -- Here `q` goes to an earlier parameter: nothing of the type is left before the place.
        subst htaken
        obtain rfl : new = q :=
          congrArg Prod.fst (List.inj_on_of_nodup_map hadded.nodup hmem hq rfl)
        have hsame : p.typeName = old.typeName := htype.trans hchosen
        have hgone := notMem_renamed_of_successor? hadded h hnew p rest
        rw [hsame, countBefore_of_successor?_in_place hadded h hplace]
        simp only [hplace, lt_irrefl, and_false, and_true, if_true, if_false]
        exact ⟨fun hin => absurd hin hgone, fun hle => by omega⟩
      · have hq' : (q, i) ∈ added.filter (·.2 != taken) :=
          List.mem_filter.2 ⟨hq, by simpa using Ne.symm htaken⟩
        -- Both counts lose one together, or none.
        have hboth : (old.typeName = p.typeName ∧ place < i) ↔
            new.typeName = p.typeName ∧ taken < i := by
          rw [hchosen]
          refine and_congr_right fun hsame => ⟨fun _ => ?_, fun _ => hplace⟩
          exact lt_of_successor? hadded h hplace hq (htype.symm.trans hsame.symm) htaken
        rw [ih hrestOrder (hadded.sublist List.filter_sublist) hrestNodup
          (hnew.sublist (List.filter_sublist.map _)) hrest hq']
        simp only [hboth]
        omega
  | case3 old place rest added h outcome ih =>
    have hother : ¬ old.typeName = p.typeName := fun hsame =>
      of_successor?_eq_none h hq (htype.symm.trans hsame.symm)
    rcases List.mem_cons.1 hp with heq | hrest
    · exact absurd (congrArg (·.1.typeName) heq).symm hother
    · rw [countBefore_cons, if_neg (fun hboth => hother hboth.1)]
      exact ih (List.pairwise_cons.1 hremoved).2 hadded (List.nodup_cons.1 hold).2 hnew hrest hq

/-! ### The signatures of two operations -/

/-- The number of parameters of a type that a list has before a place and another list lacks. -/
def missingBefore (others parameters : List Parameter) (type : Option String) (place : Nat) : Nat :=
  (parameters.take place).countP fun p =>
    p.typeName == type && !others.any (·.name == p.name)

theorem countP_zipIdx_lt (f : Parameter → Bool) (parameters : List Parameter) (place start : Nat) :
    (parameters.zipIdx start).countP (fun x => f x.1 && decide (x.2 < start + place)) =
      (parameters.take place).countP f := by
  induction parameters generalizing place start with
  | nil => simp
  | cons p rest ih =>
    cases place with
    | zero =>
      refine List.countP_eq_zero.2 fun x hx => ?_
      have hle := List.le_snd_of_mem_zipIdx hx
      simp [hle]
    | succ place =>
      have hrest := ih place (start + 1)
      rw [show start + 1 + place = start + (place + 1) by omega] at hrest
      rw [List.zipIdx_cons, List.countP_cons, List.take_succ_cons, List.countP_cons, hrest]
      simp

theorem countBefore_missingFrom (others parameters : List Parameter) (type : Option String)
    (place : Nat) :
    countBefore type place (missingFrom others parameters) =
      missingBefore others parameters type place := by
  rw [missingBefore, ← countP_zipIdx_lt _ parameters place 0, countBefore, missingFrom,
    List.countP_filter]
  refine List.countP_congr fun x _ => ?_
  simp only [Bool.and_eq_true, decide_eq_true_eq, zero_add]
  tauto

/-- **A renaming in place** is reported exactly if at least as many parameters of the type were
added before the place as were removed before it. -/
theorem rename_in_place_iff {b a : Operation} (hb : (b.parameters.map Parameter.name).Nodup)
    (ha : (a.parameters.map Parameter.name).Nodup) {i : Nat} {p q : Parameter}
    (hp : b.parameters[i]? = some p) (hq : a.parameters[i]? = some q)
    (hgone : p.name ∉ a.parameters.map Parameter.name)
    (hfresh : q.name ∉ b.parameters.map Parameter.name) (htype : p.typeName = q.typeName) :
    rename p q ∈ ofOperations b a ↔
      missingBefore a.parameters b.parameters p.typeName i ≤
        missingBefore b.parameters a.parameters p.typeName i := by
  rw [rename_mem_iff, outcome, ← countBefore_missingFrom, ← countBefore_missingFrom]
  exact renamed_in_place_iff (inOrder_missingFrom _ _) (inOrder_missingFrom _ _)
    (nodup_missingFrom hb) (nodup_missingFrom ha) (mem_missingFrom.2 ⟨hp, hgone⟩)
    (mem_missingFrom.2 ⟨hq, hfresh⟩) htype

/-- A removed parameter that has lost its place takes the first of its type, and leaves the other
one to the parameter at its place. -/
theorem rename_in_place_iff_shifted :
    let b : Operation := { (default : Operation) with
      parameters := [⟨"a", some "int", 1⟩, ⟨"k", some "Key", 2⟩, ⟨"b", some "int", 3⟩] }
    let a : Operation := { (default : Operation) with
      parameters := [⟨"k", some "Key", 1⟩, ⟨"x", some "int", 2⟩, ⟨"y", some "int", 3⟩] }
    rename ⟨"b", some "int", 3⟩ ⟨"y", some "int", 3⟩ ∈ ofOperations b a := by
  intro b a
  exact (rename_in_place_iff (b := b) (a := a) (i := 2) (by decide) (by decide) rfl rfl (by decide)
    (by decide) rfl).2 (by decide)

/-- **A renaming in place can be missed.**  The parameters `a` and `b` of one type make way for `x`
of another type and `y` of theirs.  Though `b` and `y` stand at one place, `a` is said to be renamed
to `y`, and `b` to be removed. -/
theorem rename_in_place_missed :
    let b : Operation := { (default : Operation) with
      parameters := [⟨"a", some "int", 1⟩, ⟨"b", some "int", 2⟩] }
    let a : Operation := { (default : Operation) with
      parameters := [⟨"x", some "String", 1⟩, ⟨"y", some "int", 2⟩] }
    (b.parameters.map Parameter.name).Nodup ∧ (a.parameters.map Parameter.name).Nodup ∧
    b.parameters[1]? = some ⟨"b", some "int", 2⟩ ∧ a.parameters[1]? = some ⟨"y", some "int", 2⟩ ∧
    "b" ∉ a.parameters.map Parameter.name ∧ "y" ∉ b.parameters.map Parameter.name ∧
    rename ⟨"b", some "int", 2⟩ ⟨"y", some "int", 2⟩ ∉ ofOperations b a ∧
    rename ⟨"a", some "int", 1⟩ ⟨"y", some "int", 2⟩ ∈ ofOperations b a ∧
    remove ⟨"b", some "int", 2⟩ ∈ ofOperations b a := by
  decide

end Reshape.ParameterChange
