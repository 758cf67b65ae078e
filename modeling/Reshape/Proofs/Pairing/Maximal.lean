import Mathlib
import Reshape.Pairing
import Reshape.Proofs.Pairing.Range

/-! # Keys come first, and no good pair is left

The first entities with a common key are paired before any score is looked at, and later rounds keep
the pairs they find.  A round leaves nothing behind: a candidate is turned down only because one of
its entities is taken by a candidate that was accepted.  A pair that one round does not consider,
because its relation does not hold, is considered by a round whose relation does.  So two entities
that are both in no pair in the end either satisfy none of the relations or score below the
threshold. -/

namespace Reshape

namespace Candidate

variable {candidates : List Candidate} {x : Candidate}

theorem clashes_self (x : Candidate) : x.clashes x = true := by
  simp [clashes]

/-- Every candidate is accepted, or it needs an entity of one that comes earlier and was taken
before or is accepted. -/
theorem accepted_or_clash {earlier : Candidate → Candidate → Prop} (taken : List Candidate)
    (hsorted : candidates.Pairwise earlier) (htaken : ∀ y ∈ taken, ∀ x ∈ candidates, earlier y x)
    (hx : x ∈ candidates) : x ∈ acceptFrom taken candidates ∨
      ∃ y ∈ taken ++ acceptFrom taken candidates, x.clashes y = true ∧ earlier y x := by
  induction candidates generalizing taken with
  | nil => cases hx
  | cons c rest ih =>
    obtain ⟨hc, hrest⟩ := List.pairwise_cons.1 hsorted
    rw [acceptFrom]
    by_cases hclash : taken.any c.clashes = true
    · rw [if_pos hclash]
      rcases List.mem_cons.1 hx with rfl | hx
      · obtain ⟨y, hy, hxy⟩ := List.any_eq_true.1 hclash
        exact .inr ⟨y, List.mem_append_left _ hy, hxy, htaken y hy x (List.mem_cons_self ..)⟩
      · exact ih taken hrest (fun y hy z hz => htaken y hy z (List.mem_cons_of_mem _ hz)) hx
    · rw [if_neg hclash]
      rcases List.mem_cons.1 hx with rfl | hx
      · exact .inl (List.mem_cons_self ..)
      · have htaken' : ∀ y ∈ c :: taken, ∀ z ∈ rest, earlier y z := by
          intro y hy z hz
          rcases List.mem_cons.1 hy with rfl | hy
          · exact hc z hz
          · exact htaken y hy z (List.mem_cons_of_mem _ hz)
        rcases ih (c :: taken) hrest htaken' hx with hx | ⟨y, hy, hxy⟩
        · exact .inl (List.mem_cons_of_mem _ hx)
        · exact .inr ⟨y, by grind, hxy⟩

/-- What is accepted is maximal: no candidate is left whose entities are both free. -/
theorem exists_accepted_clash (hx : x ∈ candidates) :
    ∃ y ∈ accept candidates, x.clashes y = true := by
  have hsorted : (candidates.mergeSort ranksFirst).Pairwise fun _ _ => True :=
    List.pairwise_of_forall fun _ _ => trivial
  have hx := (List.mergeSort_perm candidates ranksFirst).mem_iff.2 hx
  rcases accepted_or_clash [] hsorted (by simp) hx with hx | ⟨y, hy, hclash, -⟩
  · exact ⟨x, hx, x.clashes_self⟩
  · exact ⟨y, hy, hclash⟩

end Candidate

namespace KindPairing

variable {α κ κ' : Type}

/-- The first entities with a common key are a pair, at the best score. -/
def JoinsFirst [BEq κ] (pairing : KindPairing) (id : α → Nat) (key : α → κ)
    (before after : Array α) : Prop :=
  ∀ k b a, before.toList.find? (key · == k) = some b → after.toList.find? (key · == k) = some a →
    ⟨id b, id a, 1.0⟩ ∈ pairing.pairs

/-- A key says the same in another form that tells apart what it tells apart. -/
theorem JoinsFirst.of_form [BEq κ] [BEq κ'] {pairing : KindPairing} {id : α → Nat} {key : α → κ}
    {before after : Array α} {form : κ → κ'} (hform : ∀ k l, (form k == form l) = (k == l))
    (h : pairing.JoinsFirst id (fun e => form (key e)) before after) :
    pairing.JoinsFirst id key before after := by
  intro k b a hb ha
  apply h (form k) b a
  · simpa only [hform] using hb
  · simpa only [hform] using ha

/-- No two related entities that were removed and added have a score that reaches the threshold. -/
def LeavesNoPair (pairing : KindPairing) (id : α → Nat) (related : α → α → Prop)
    (score : α → α → Float) (threshold : Float) (before after : Array α) : Prop :=
  ∀ b ∈ before, ∀ a ∈ after, id b ∈ pairing.removed → id a ∈ pairing.added → related b a →
    ¬threshold ≤ score b a

end KindPairing

namespace Pairing

namespace View

variable {α : Type} {view : View α} {before after : List α} {b a : α}

/-! ### Pairing by key -/

/-- Pairing by key joins the first entities of every key that has not been seen. -/
theorem mem_exactFrom_of_first {k : String × String} {seen : List (String × String)}
    (hb : before.find? (view.key · == k) = some b) (ha : after.find? (view.key · == k) = some a)
    (hseen : k ∉ seen) : ⟨view.id b, view.id a, 1.0⟩ ∈ view.exactFrom after seen before := by
  induction before generalizing seen with
  | nil => cases hb
  | cons c rest ih =>
    by_cases hkey : view.key c = k
    · subst hkey
      rw [List.find?_cons_of_pos (by simp)] at hb
      obtain rfl := Option.some.inj hb
      have hnew : ¬seen.contains (view.key c) = true := fun h => hseen (List.contains_iff_mem.1 h)
      rw [exactFrom, if_neg hnew, ha]
      exact List.mem_cons_self ..
    · rw [List.find?_cons_of_neg (by simpa using hkey)] at hb
      have hunseen : k ∉ view.key c :: seen := by simp [hseen, Ne.symm hkey]
      have hlater := ih hb hunseen
      rw [exactFrom]
      split
      · exact hlater
      · split
        · exact List.mem_cons_of_mem _ hlater
        · exact hlater

/-! ### Rounds -/

/-- Rounds keep the pairs they find. -/
theorem subset_rounds (rounds : List (α → α → Bool)) (pairs : List Pair) :
    pairs ⊆ rounds.foldl (view.round before after) pairs := by
  induction rounds generalizing pairs with
  | nil => exact List.Subset.refl _
  | cons related rounds ih =>
    intro p hp
    exact ih _ (List.mem_append_left _ hp)

/-- A pair has one of two entities. -/
def Touches (view : View α) (b a : α) (pairs : List Pair) : Prop :=
  ∃ p ∈ pairs, p.before = view.id b ∨ p.after = view.id a

/-- After a round, one of two related entities that score well is in a pair. -/
theorem touches_round {related : α → α → Bool} (pairs : List Pair) (hb : b ∈ before)
    (ha : a ∈ after) (hrelated : related b a = true) (hscore : view.threshold ≤ view.score b a) :
    view.Touches b a (view.round before after pairs related) := by
  by_cases hfree : view.Touches b a pairs
  · obtain ⟨p, hp, hside⟩ := hfree
    exact ⟨p, List.mem_append_left _ hp, hside⟩
  · -- Both are free, so they are a candidate of this round.
    have hnone : ∀ p ∈ pairs, p.before ≠ view.id b ∧ p.after ≠ view.id a := by
      intro p hp
      constructor
      · exact fun heq => hfree ⟨p, hp, .inl heq⟩
      · exact fun heq => hfree ⟨p, hp, .inr heq⟩
    obtain ⟨x, hx, hxb, hxa⟩ : ∃ x, view.candidate? b a = some x ∧ x.before = view.id b ∧
        x.after = view.id a := ⟨_, if_pos hscore, rfl, rfl⟩
    have hmem : x ∈ view.candidates related before after pairs := by
      refine List.mem_flatMap.2 ⟨b, ?_, List.mem_filterMap.2 ⟨a, ?_, hx⟩⟩
      · simpa [hb] using fun p hp => (hnone p hp).1
      · simpa [ha, hrelated] using fun p hp => (hnone p hp).2
    obtain ⟨y, hy, hclash⟩ := Candidate.exists_accepted_clash hmem
    refine ⟨y.pair, List.mem_append_right _ (List.mem_map_of_mem hy), ?_⟩
    rw [Candidate.clashes, Bool.or_eq_true, beq_iff_eq, beq_iff_eq, hxb, hxa] at hclash
    exact hclash.imp Eq.symm Eq.symm

/-- After all rounds, one of two entities that score well is in a pair if any round relates them. -/
theorem touches_rounds {rounds : List (α → α → Bool)} {related : α → α → Bool} (pairs : List Pair)
    (hround : related ∈ rounds) (hb : b ∈ before) (ha : a ∈ after) (hrelated : related b a = true)
    (hscore : view.threshold ≤ view.score b a) :
    view.Touches b a (rounds.foldl (view.round before after) pairs) := by
  induction rounds generalizing pairs with
  | nil => cases hround
  | cons first rounds ih =>
    rcases List.mem_cons.1 hround with rfl | hround
    · obtain ⟨p, hp, hside⟩ := touches_round pairs hb ha hrelated hscore
      exact ⟨p, subset_rounds rounds _ hp, hside⟩
    · exact ih _ hround

/-! ### Whole pairings -/

variable {rounds : List (α → α → Bool)} {befores afters : Array α}

theorem joinsFirst_pairUp (view : View α) (rounds : List (α → α → Bool))
    (befores afters : Array α) :
    (view.pairUp rounds befores afters).JoinsFirst view.id view.key befores afters := by
  intro k b a hb ha
  have hexact := mem_exactFrom_of_first hb ha List.not_mem_nil
  exact (List.mergeSort_perm _ precedes).mem_iff.2 (subset_rounds rounds _ hexact)

theorem leavesNoPair_pairUp (view : View α) {related : α → α → Prop}
    (hrelated : ∀ b a, related b a → ∃ r ∈ rounds, r b a = true) :
    (view.pairUp rounds befores afters).LeavesNoPair view.id related view.score view.threshold
      befores afters := by
  intro b hb a ha hremoved hadded hba hscore
  obtain ⟨r, hr, hra⟩ := hrelated b a hba
  obtain ⟨p, hp, hside⟩ := touches_rounds (view.exactFrom afters.toList [] befores.toList) hr
    (Array.mem_toList_iff.2 hb) (Array.mem_toList_iff.2 ha) hra hscore
  replace hp := (List.mergeSort_perm _ precedes).mem_iff.2 hp
  -- The pair shows that one of the two entities is in no list of entities without a partner.
  rcases hside with hside | hside
  · have hfree := (List.mem_filter.1 hremoved).2
    simp only [Bool.not_eq_true', List.any_eq_false, beq_iff_eq] at hfree
    exact hfree p hp hside
  · have hfree := (List.mem_filter.1 hadded).2
    simp only [Bool.not_eq_true', List.any_eq_false, beq_iff_eq] at hfree
    exact hfree p hp hside

end View

theorem hasPair_iff {classes : KindPairing} {b a : Nat} :
    hasPair classes b a = true ↔ ∃ p ∈ classes.pairs, p.before = b ∧ p.after = a := by
  simp [hasPair]

/-- **Keys come first, and no good pair is left.**  For any two models, thresholds and scores, the
first entities with a common qualified name, of operations with a common signature too, are a pair
at score one.  No class or operation that was removed and one that was added reach the threshold of
their kind, and neither do attributes of paired classes or of one name. -/
theorem keys_first_and_maximal (scoring : Scoring) (thresholds : Thresholds)
    (before after : Model) :
    let pairing := ofModels scoring thresholds before after
    pairing.classes.JoinsFirst Class.id Class.qualifiedName before.classes after.classes ∧
    pairing.operations.JoinsFirst Operation.id (fun op => (op.qualifiedName, op.signatureKey))
      before.operations after.operations ∧
    pairing.attributes.JoinsFirst Attribute.id Attribute.qualifiedName before.attributes
      after.attributes ∧
    pairing.classes.LeavesNoPair Class.id (fun _ _ => True) (scoring.classes before after)
      thresholds.classMatch before.classes after.classes ∧
    pairing.operations.LeavesNoPair Operation.id (fun _ _ => True) scoring.operations
      thresholds.operationMatch before.operations after.operations ∧
    pairing.attributes.LeavesNoPair Attribute.id
      (fun b a => (∃ p ∈ pairing.classes.pairs, p.before = b.owner ∧ p.after = a.owner) ∨
        b.name = a.name)
      scoring.attributes thresholds.attributeMatch before.attributes after.attributes := by
  intro pairing
  have hform : ∀ name other : String, ((name, "") == (other, "")) = (name == other) :=
    fun name other => Bool.and_true _
  refine ⟨?_, View.joinsFirst_pairUp (operationView scoring thresholds) _ _ _, ?_, ?_, ?_, ?_⟩
  · exact (View.joinsFirst_pairUp (classView scoring thresholds before after) _ _ _).of_form hform
  · exact (View.joinsFirst_pairUp (attributeView scoring thresholds) _ _ _).of_form hform
  · exact View.leavesNoPair_pairUp (classView scoring thresholds before after)
      fun b a _ => ⟨_, List.mem_singleton_self _, rfl⟩
  · exact View.leavesNoPair_pairUp (operationView scoring thresholds)
      fun b a _ => ⟨_, List.mem_cons_of_mem _ (List.mem_singleton_self _), rfl⟩
  · refine View.leavesNoPair_pairUp (attributeView scoring thresholds) ?_
    rintro b a (hclasses | hname)
    · exact ⟨_, List.mem_cons_self .., hasPair_iff.2 hclasses⟩
    · exact ⟨_, List.mem_cons_of_mem _ (List.mem_singleton_self _), beq_iff_eq.2 hname⟩

end Pairing

end Reshape
