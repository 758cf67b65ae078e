import Mathlib
import Reshape.Mapping.Subtrees
import Reshape.Proofs.Mapping

/-! # Mappings stay one-to-one

A mapping starts empty and is changed by three calls: a pair is added, two subtrees are added,
another mapping is merged in.  A call may fail, and adding subtrees may fail halfway.  Whatever the
calls are and whether they succeed, the two maps stay inverse to each other.

Merging writes both maps itself, pair by pair.  No node of the other mapping is in two of its pairs,
so what is free for a pair at the start is still free at its turn: the outcome can be told from the
two mappings alone. -/

namespace Reshape.Mapping

variable {mapping other result : Mapping} {s t : Nat}

/-- Neither node of a pair has a partner. -/
def Free (mapping : Mapping) (s t : Nat) : Prop :=
  mapping.target? s = none ∧ mapping.source? t = none

instance : Decidable (mapping.Free s t) :=
  inferInstanceAs (Decidable (_ ∧ _))

theorem has_iff : mapping.has s t = true ↔ mapping.target? s = some t :=
  beq_iff_eq

theorem hasSource_or_hasTarget_iff :
    (mapping.hasSource s || mapping.hasTarget t) = true ↔ ¬mapping.Free s t := by
  rw [Free, not_and_or, Bool.or_eq_true, hasSource, hasTarget, Option.isSome_iff_ne_none,
    Option.isSome_iff_ne_none]

/-! ### Adding pairs -/

/-- A pair is added if both nodes are free, and accepted without a change if it is there already. -/
theorem add_cases (h : mapping.add s t = (result, none)) :
    mapping.Free s t ∧ result = mapping.insert s t ∨
      mapping.target? s = some t ∧ result = mapping := by
  rw [Mapping.add] at h
  split at h
  · rename_i hs ht
    exact .inl ⟨⟨hs, ht⟩, (congrArg Prod.fst h).symm⟩
  · split at h
    · rename_i hthere
      exact .inr ⟨hthere.1, (congrArg Prod.fst h).symm⟩
    · cases h

/-- A pair that is refused leaves the mapping as it is. -/
theorem add_of_refused {violation : Violation} (h : mapping.add s t = (result, some violation)) :
    result = mapping := by
  rw [Mapping.add] at h
  split at h
  · cases h
  · split at h
    · cases h
    · exact (congrArg Prod.fst h).symm

namespace OneToOne

/-- A pair can be added if it is there already or both nodes are free. -/
theorem add_ok_iff (h : mapping.OneToOne) :
    (∃ result, mapping.add s t = (result, none)) ↔
      mapping.target? s = some t ∨ mapping.Free s t := by
  constructor
  · rintro ⟨result, hadd⟩
    exact (add_cases hadd).symm.imp And.left And.left
  · intro hfits
    have hfit : mapping.Fits s t := by
      rcases hfits with hthere | ⟨hs, ht⟩
      · exact ⟨fun _ ht => Option.some.inj (ht.symm.trans hthere),
          fun _ hs => Option.some.inj (hs.symm.trans ((h s t).1 hthere))⟩
      · exact fits_of_free hs ht
    obtain ⟨result, hadd, -⟩ := h.add hfit
    exact ⟨result, hadd⟩

/-- Adding a pair keeps a mapping one-to-one, whether it is accepted or not. -/
theorem of_add (h : mapping.OneToOne) (s t : Nat) : (mapping.add s t).1.OneToOne := by
  rcases hadd : mapping.add s t with ⟨result, - | violation⟩
  · rcases add_cases hadd with ⟨⟨hs, ht⟩, rfl⟩ | ⟨-, rfl⟩
    · exact h.insert hs ht
    · exact h
  · rw [add_of_refused hadd]
    exact h

/-- Adding pairs keeps a mapping one-to-one, also if it ends at a pair that is refused. -/
theorem addPairs (h : mapping.OneToOne) (pairs : List (Nat × Nat)) :
    (mapping.addPairs pairs).1.OneToOne := by
  induction pairs generalizing mapping with
  | nil => exact h
  | cons pair pairs ih =>
    obtain ⟨x, y⟩ := pair
    have hnext := h.of_add x y
    rw [Mapping.addPairs]
    split
    · rename_i next hadd
      rw [hadd] at hnext
      exact ih hnext
    · exact hnext

end OneToOne

/-- A pair that is accepted is there afterwards; no other pair comes or goes. -/
theorem gains_of_add (h : mapping.add s t = (result, none)) :
    mapping.Gains result fun x y => x = s ∧ y = t := by
  rcases add_cases h with ⟨⟨hs, -⟩, rfl⟩ | ⟨hthere, rfl⟩
  · exact gains_insert hs
  · intro x y
    refine ⟨.inl, ?_⟩
    rintro (hxy | ⟨rfl, rfl⟩)
    · exact hxy
    · exact hthere

/-! ### Merging -/

/-- A pair of another mapping is taken over if both nodes are free, and counts as dropped if it is
not there afterwards. -/
theorem absorb_eq (mapping : Mapping) (dropped s t : Nat) : absorb (mapping, dropped) (s, t) =
    if mapping.Free s t then (mapping.insert s t, dropped)
    else (mapping, if mapping.target? s = some t then dropped else dropped + 1) := by
  simp only [absorb, has_iff, hasSource_or_hasTarget_iff]
  by_cases hfree : mapping.Free s t
  · simp [hfree, hfree.1]
  · split <;> simp

theorem gains_absorb (mapping : Mapping) (dropped x y : Nat) :
    mapping.Gains (absorb (mapping, dropped) (x, y)).1
      fun s t => (s, t) = (x, y) ∧ mapping.Free s t := by
  intro s t
  rw [absorb_eq]
  split
  · rename_i hfree
    refine (gains_insert hfree.1 s t).trans (or_congr_right ⟨?_, fun h => Prod.mk.inj h.1⟩)
    rintro ⟨rfl, rfl⟩
    exact ⟨rfl, hfree⟩
  · rename_i hfree
    refine ⟨.inl, ?_⟩
    rintro (hold | ⟨heq, hfree'⟩)
    · exact hold
    · obtain ⟨rfl, rfl⟩ := Prod.mk.inj heq
      exact absurd hfree' hfree

theorem free_absorb_iff {x y : Nat} (dropped : Nat) (hs : x ≠ s) (ht : y ≠ t) :
    (absorb (mapping, dropped) (x, y)).1.Free s t ↔ mapping.Free s t := by
  rw [absorb_eq]
  split
  · rw [Free, Free, target?_insert, source?_insert, if_neg hs, if_neg ht]
  · rfl

/-- Going through pairs without repeated nodes takes over those that are free at the start. -/
theorem gains_foldl_absorb {pairs : List (Nat × Nat)} (hfst : (pairs.map Prod.fst).Nodup)
    (hsnd : (pairs.map Prod.snd).Nodup) (state : Mapping × Nat) :
    state.1.Gains (pairs.foldl absorb state).1 fun s t => (s, t) ∈ pairs ∧ state.1.Free s t := by
  induction pairs generalizing state with
  | nil => exact fun s t => by simp
  | cons pair pairs ih =>
    obtain ⟨x, y⟩ := pair
    obtain ⟨mapping, dropped⟩ := state
    obtain ⟨hx, hfst⟩ := List.nodup_cons.1 hfst
    obtain ⟨hy, hsnd⟩ := List.nodup_cons.1 hsnd
    intro s t
    -- the pairs behind have other nodes, so they are as free as before
    have hrest : (s, t) ∈ pairs →
        ((absorb (mapping, dropped) (x, y)).1.Free s t ↔ mapping.Free s t) := fun hmem =>
      free_absorb_iff dropped (fun heq => hx (List.mem_map.2 ⟨_, hmem, heq.symm⟩))
        fun heq => hy (List.mem_map.2 ⟨_, hmem, heq.symm⟩)
    have hstep := gains_absorb mapping dropped x y s t
    have htail := ih hfst hsnd (absorb (mapping, dropped) (x, y)) s t
    beta_reduce at hstep htail ⊢
    rw [List.foldl_cons, htail, hstep, and_congr_right hrest, or_assoc, ← or_and_right,
      List.mem_cons]

/-- What is counted are the pairs that are not there in the end. -/
theorem dropped_foldl_absorb {pairs : List (Nat × Nat)} (hfst : (pairs.map Prod.fst).Nodup)
    (hsnd : (pairs.map Prod.snd).Nodup) (state : Mapping × Nat) :
    (pairs.foldl absorb state).2 =
      state.2 + pairs.countP fun p => !(pairs.foldl absorb state).1.has p.1 p.2 := by
  induction pairs generalizing state with
  | nil => rfl
  | cons pair pairs ih =>
    obtain ⟨x, y⟩ := pair
    obtain ⟨mapping, dropped⟩ := state
    have hhas : (((x, y) :: pairs).foldl absorb (mapping, dropped)).1.has x y = true ↔
        mapping.target? x = some y ∨ mapping.Free x y := by
      rw [has_iff, gains_foldl_absorb hfst hsnd (mapping, dropped) x y]
      simp only [List.mem_cons_self, true_and]
    rw [List.foldl_cons] at hhas ⊢
    rw [ih (List.nodup_cons.1 hfst).2 (List.nodup_cons.1 hsnd).2, List.countP_cons]
    generalize (pairs.foldl absorb _).1 = result at hhas ⊢
    rw [absorb_eq]
    by_cases hfree : mapping.Free x y
    · simp [hfree, hhas.2 (.inr hfree)]
    · by_cases hthere : mapping.target? x = some y
      · simp [hfree, hthere, hhas.2 (.inl hthere)]
      · have hlost : result.has x y = false := by
          rw [Bool.eq_false_iff]
          exact fun h => (hhas.1 h).elim hthere hfree
        simp only [hfree, hthere, hlost, ↓reduceIte, Bool.not_false]
        omega

/-- Merging adds the pairs whose nodes are free, and counts those that are not there afterwards. -/
theorem OneToOne.merge_exact (hother : other.OneToOne) (mapping : Mapping) :
    (∀ s t, (mapping.merge other).1.target? s = some t ↔
      mapping.target? s = some t ∨ other.target? s = some t ∧ mapping.Free s t) ∧
    (mapping.merge other).2 = other.pairs.countP fun p => !(mapping.merge other).1.has p.1 p.2 := by
  have hfst := other.nodup_pairs_fst
  have hsnd := hother.nodup_pairs_snd
  constructor
  · intro s t
    have hpair : (s, t) ∈ other.pairs ↔ other.target? s = some t := mem_pairs
    rw [← hpair]
    exact gains_foldl_absorb hfst hsnd (mapping, 0) s t
  · rw [← Nat.zero_add (List.countP ..)]
    exact dropped_foldl_absorb hfst hsnd (mapping, 0)

/-! ### Calls -/

/-- A call that changes a mapping.  What is merged in has been made by calls of its own. -/
inductive Call where
  | add (s t : Nat)
  | addSubtrees (source target : Tree) (s t : Nat)
  | merge (calls : List Call)

mutual

/-- The mapping after a call, whether the call succeeds or not. -/
def after (mapping : Mapping) : Call → Mapping
  | .add s t => (mapping.add s t).1
  | .addSubtrees source target s t => (mapping.addPairs (subtreePairs source target s t)).1
  | .merge calls => (mapping.merge (empty.afterAll calls)).1

/-- The mapping after a sequence of calls. -/
def afterAll (mapping : Mapping) : List Call → Mapping
  | [] => mapping
  | call :: calls => (mapping.after call).afterAll calls

end

/-- A call keeps a mapping one-to-one. -/
theorem OneToOne.after (h : mapping.OneToOne) (call : Call) : (mapping.after call).OneToOne := by
  cases call with
  | add s t =>
    rw [Mapping.after]
    exact h.of_add s t
  | addSubtrees source target s t =>
    rw [Mapping.after]
    exact h.addPairs _
  | merge calls =>
    rw [Mapping.after]
    exact (h.merge _).1

theorem OneToOne.afterAll (h : mapping.OneToOne) (calls : List Call) :
    (mapping.afterAll calls).OneToOne := by
  induction calls generalizing mapping with
  | nil =>
    rw [Mapping.afterAll]
    exact h
  | cons call calls ih =>
    rw [Mapping.afterAll]
    exact ih (h.after call)

/-- **Mappings stay one-to-one.**  After every sequence of calls the two maps are inverse to each
other.  A pair can then be added exactly if it is there already or both nodes are free; a pair that
is refused leaves the mapping as it is.  Merging another mapping yields the old pairs and those of
its pairs whose nodes were both free, and counts its pairs that are missing in the result. -/
theorem calls_keep_one_to_one (calls others : List Call) :
    let mapping := empty.afterAll calls
    let other := empty.afterAll others
    mapping.OneToOne ∧
    (∀ s t, (∃ result, mapping.add s t = (result, none)) ↔
      mapping.target? s = some t ∨ mapping.Free s t) ∧
    (∀ s t result, mapping.add s t = (result, none) →
      mapping.Gains result fun x y => x = s ∧ y = t) ∧
    (∀ s t result violation, mapping.add s t = (result, some violation) → result = mapping) ∧
    (∀ s t, (mapping.merge other).1.target? s = some t ↔
      mapping.target? s = some t ∨ other.target? s = some t ∧ mapping.Free s t) ∧
    (mapping.merge other).2 = other.pairs.countP fun p => !(mapping.merge other).1.has p.1 p.2 := by
  intro mapping other
  have hmapping : mapping.OneToOne := oneToOne_empty.afterAll calls
  have hother : other.OneToOne := oneToOne_empty.afterAll others
  exact ⟨hmapping, fun _ _ => hmapping.add_ok_iff, fun _ _ _ => gains_of_add,
    fun _ _ _ _ => add_of_refused, hother.merge_exact mapping⟩

end Reshape.Mapping
