import Mathlib
import Reshape.Proofs.Refactoring.Related

/-! # What survives the resolution of conflicts

A refactoring is dropped if another one has reserved a pair of entities and excludes it.  So the
refactorings of a pair survive together if none of them relates a second pair and no two of them
exclude each other.  Of what is left, only repetitions are dropped; a refactoring that is the only
one to classify its pair repeats no other. -/

namespace Reshape

/-- Whether a group says that an entity got another name or another place. -/
def Group.isClassification : Group → Bool
  | rename | move | hierarchy => true
  | _ => false

/-- Classifications of one group, and classifications and details, go together. -/
theorem Group.excludes_eq_false {a b : Group} (ha : a.isClassification ∨ a.isDetail)
    (hb : b.isClassification ∨ b.isDetail)
    (hab : a.isClassification → b.isClassification → a = b) : a.excludes b = false := by
  revert ha hb hab
  cases a <;> cases b <;> decide

namespace Refactoring

variable {key : PairKey} {found : List Refactoring}

/-! ### Reservations -/

theorem lookup_reserve (group : Group) (reservations : Reservations) (other key : PairKey) :
    (reserve group reservations other).lookup key =
      (reservations.lookup key).or (if key = other then some group else none) := by
  rw [reserve]
  split
  · rename_i hreserved
    split
    · rename_i heq
      obtain ⟨g, hg⟩ := Option.isSome_iff_exists.1 hreserved
      rw [heq, hg, Option.some_or]
    · rw [Option.or_none]
  · rw [List.lookup_append, List.lookup_cons, List.lookup_nil]
    by_cases heq : key = other
    · rw [beq_iff_eq.2 heq, if_pos heq]
    · rw [beq_eq_false_iff_ne.2 heq, if_neg heq]

/-- The first reservation of a pair stays. -/
theorem lookup_foldl_reserve (group : Group) (reservations : Reservations) (keys : List PairKey)
    (key : PairKey) : (keys.foldl (reserve group) reservations).lookup key =
      (reservations.lookup key).or (if key ∈ keys then some group else none) := by
  induction keys generalizing reservations with
  | nil => simp
  | cons other keys ih =>
    rw [List.foldl_cons, ih, lookup_reserve]
    by_cases heq : key = other <;> by_cases hmem : key ∈ keys <;> simp [heq, hmem]

/-! ### Refactorings that go together -/

/-- Refactorings of a pair that relate no other pair and do not exclude each other. -/
structure GoTogether (key : PairKey) (found : List Refactoring) : Prop where
  alone : ∀ r ∈ found, key ∈ r.keys → r.keys = [key]
  compatible : ∀ r ∈ found, ∀ s ∈ found, key ∈ r.keys → key ∈ s.keys →
    r.group.excludes s.group = false

theorem GoTogether.perm {other : List Refactoring} (h : GoTogether key found)
    (hperm : other.Perm found) : GoTogether key other :=
  ⟨fun r hr => h.alone r (hperm.mem_iff.1 hr),
    fun r hr s hs => h.compatible r (hperm.mem_iff.1 hr) s (hperm.mem_iff.1 hs)⟩

/-- Reservations on a pair that exclude none of its refactorings. -/
def Allow (key : PairKey) (reservations : Reservations) (found : List Refactoring) : Prop :=
  ∀ group, reservations.lookup key = some group →
    ∀ r ∈ found, key ∈ r.keys → group.excludes r.group = false

theorem filter_resolveFrom {reservations : Reservations} (h : GoTogether key found)
    (hallows : Allow key reservations found) :
    (resolveFrom reservations found).filter (key ∈ ·.keys) = found.filter (key ∈ ·.keys) := by
  induction found generalizing reservations with
  | nil => rfl
  | cons r rest ih =>
    have hrest : GoTogether key rest :=
      ⟨fun s hs => h.alone s (List.mem_cons_of_mem _ hs), fun s hs t ht =>
        h.compatible s (List.mem_cons_of_mem _ hs) t (List.mem_cons_of_mem _ ht)⟩
    rw [resolveFrom]
    split
    · -- only a reservation on another pair can exclude `r`
      rename_i hexcluded
      have hother : key ∉ r.keys := by
        intro hkey
        rw [isExcluded, h.alone r (List.mem_cons_self ..) hkey] at hexcluded
        obtain ⟨group, hgroup, hexcludes⟩ : ∃ group, reservations.lookup key = some group ∧
            group.excludes r.group = true := by
          simpa [Option.any_eq_true] using hexcluded
        rw [hallows group hgroup r (List.mem_cons_self ..) hkey] at hexcludes
        cases hexcludes
      rw [ih hrest fun group hgroup s hs => hallows group hgroup s (List.mem_cons_of_mem _ hs),
        List.filter_cons_of_neg (by simpa using hother)]
    · rw [List.filter_cons, List.filter_cons, ih hrest]
      intro group hgroup s hs hkey
      rw [lookup_foldl_reserve, Option.or_eq_some_iff] at hgroup
      rcases hgroup with hgroup | ⟨-, hgroup⟩
      · exact hallows group hgroup s (List.mem_cons_of_mem _ hs) hkey
      · obtain ⟨hr, hsame⟩ := Option.ite_none_right_eq_some.1 hgroup
        obtain rfl := Option.some.inj hsame
        exact h.compatible r (List.mem_cons_self ..) s (List.mem_cons_of_mem _ hs) hr hkey

/-- Refactorings of a pair that go together survive the resolution. -/
theorem filter_resolve (h : GoTogether key found) :
    ((resolve found).filter (key ∈ ·.keys)).Perm (found.filter (key ∈ ·.keys)) := by
  have hsorted := List.mergeSort_perm found listedFirst
  rw [resolve, filter_resolveFrom (h.perm hsorted) fun _ hgroup => by cases hgroup]
  exact hsorted.filter _

/-! ### Repetitions -/

/-- Whether a refactoring says that a pair of entities got another name or another place. -/
def classifies (key : PairKey) (r : Refactoring) : Bool :=
  key ∈ r.keys && r.group.isClassification

theorem id_eq_of_beq {x y : EntityRef} (h : (x == y) = true) : x.id = y.id := by
  simp only [BEq.beq, instBEqEntityRef.beq, Bool.and_eq_true] at h
  exact of_decide_eq_true h.1

/-- A refactoring that repeats a classification classifies the same pair. -/
theorem classifies_of_repeats {r other : Refactoring} (h : r.repeats other = true)
    (hr : r.classifies key = true) : other.classifies key = true := by
  obtain ⟨fact, justification⟩ := r
  obtain ⟨fact', justification'⟩ := other
  simp only [repeats, Bool.and_eq_true] at h
  obtain ⟨-, h⟩ := h
  cases fact with
  | change what before after =>
    cases fact' with
    | change what' before' after' =>
      change (what == what' && (before == before' && after == after')) = true at h
      simp only [Bool.and_eq_true, beq_iff_eq] at h
      obtain ⟨rfl, hbefore, hafter⟩ := h
      simpa [classifies, keys, Fact.entityPairs, Refactoring.group, Fact.group,
        id_eq_of_beq hbefore, id_eq_of_beq hafter] using hr
    | _ => cases h
  | renameMethod before after similarity isPure =>
    cases fact' with
    | renameMethod before' after' similarity' isPure' =>
      change (before == before' && (after == after' && (similarity == similarity' &&
        isPure == isPure'))) = true at h
      simp only [Bool.and_eq_true] at h
      obtain ⟨hbefore, hafter, -⟩ := h
      simpa [classifies, keys, Fact.entityPairs, Refactoring.group, Fact.group,
        id_eq_of_beq hbefore, id_eq_of_beq hafter] using hr
    | _ => cases h
  | _ => simp [classifies, Refactoring.group, Fact.group, Group.isClassification] at hr

/-- Dropping repetitions keeps whatever is found at most once. -/
theorem filter_dropRepeatsOf {keep : Refactoring → Bool}
    (hkeep : ∀ r other, r.repeats other = true → keep r = true → keep other = true)
    (last : Refactoring) (honce : ((last :: found).filter keep).length ≤ 1) :
    (dropRepeatsOf last found).filter keep = found.filter keep := by
  induction found generalizing last with
  | nil => rfl
  | cons r rest ih =>
    rw [dropRepeatsOf]
    split
    · rename_i hrepeats
      have hr : ¬keep r = true := by
        intro hr
        rw [List.filter_cons_of_pos (hkeep r last hrepeats hr), List.filter_cons_of_pos hr] at honce
        simp at honce
      have hsub : (last :: rest).Sublist (last :: r :: rest) :=
        (List.sublist_cons_self r rest).cons_cons _
      rw [List.filter_cons_of_neg hr]
      exact ih last ((hsub.filter keep).length_le.trans honce)
    · have hsub : (r :: rest).Sublist (last :: r :: rest) := List.sublist_cons_self _ _
      rw [List.filter_cons, List.filter_cons, ih r ((hsub.filter keep).length_le.trans honce)]

theorem filter_dropRepeats {keep : Refactoring → Bool}
    (hkeep : ∀ r other, r.repeats other = true → keep r = true → keep other = true)
    (honce : (found.filter keep).length ≤ 1) :
    (dropRepeats found).filter keep = found.filter keep := by
  cases found with
  | nil => rfl
  | cons r rest =>
    rw [dropRepeats, List.filter_cons, List.filter_cons, filter_dropRepeatsOf hkeep r honce]

/-! ### The classification of a pair -/

/-- The only classification of a pair survives if it goes together with what else is found about the
pair. -/
theorem filter_classifies (h : GoTogether key found)
    (honce : (found.filter (classifies key)).length ≤ 1) :
    (dropRepeats ((resolve found).mergeSort listedFirst)).filter (classifies key) =
      found.filter (classifies key) := by
  have hsplit : ∀ list : List Refactoring, list.filter (classifies key) =
      (list.filter (key ∈ ·.keys)).filter (·.group.isClassification) := by
    intro list
    rw [List.filter_filter]
    exact List.filter_congr fun r _ => Bool.and_comm _ _
  have hperm : (((resolve found).mergeSort listedFirst).filter (classifies key)).Perm
      (found.filter (classifies key)) := by
    refine ((List.mergeSort_perm _ _).filter _).trans ?_
    rw [hsplit, hsplit]
    exact (filter_resolve h).filter _
  rw [filter_dropRepeats (fun _ _ => classifies_of_repeats) (hperm.length_eq ▸ honce)]
  match hfound : found.filter (classifies key) with
  | [] => exact (hfound ▸ hperm).eq_nil
  | [r] => exact List.perm_singleton.1 (hfound ▸ hperm)
  | _ :: _ :: _ => simp [hfound] at honce

end Refactoring

end Reshape
