import Mathlib
import Reshape.Mapping.Basic
import Reshape.Proofs.Loop

/-! # One-to-one mappings

A mapping keeps its pairs in two maps.  It is one-to-one when the two maps are inverse to each
other; then it is a relation between source and target nodes in which no node has two partners.
Every operation of the library keeps mappings one-to-one.

A pair *fits* a mapping if neither of its nodes has another partner.  Fitting pairs without repeated
nodes can be added one after the other, and the result holds the old pairs and the new ones. -/

namespace Reshape.Mapping

variable {mapping other : Mapping} {s t x y : Nat}

/-- The two maps of a mapping are inverse to each other. -/
def OneToOne (mapping : Mapping) : Prop :=
  ∀ s t, mapping.target? s = some t ↔ mapping.source? t = some s

/-- Neither node of a pair has another partner. -/
def Fits (mapping : Mapping) (x y : Nat) : Prop :=
  (∀ t, mapping.target? x = some t → t = y) ∧ (∀ s, mapping.source? y = some s → s = x)

/-- One mapping holds the pairs of another one and those of a relation, and no more. -/
def Gains (mapping other : Mapping) (new : Nat → Nat → Prop) : Prop :=
  ∀ s t, other.target? s = some t ↔ mapping.target? s = some t ∨ new s t

theorem oneToOne_empty : OneToOne empty := by
  intro s t
  simp [empty, target?, source?]

theorem OneToOne.source_eq (h : mapping.OneToOne) (hs : mapping.target? s = some t)
    (hx : mapping.target? x = some t) : s = x :=
  Option.some.inj (((h s t).1 hs).symm.trans ((h x t).1 hx))

theorem target?_insert (mapping : Mapping) (x y s : Nat) :
    (mapping.insert x y).target? s = if x = s then some y else mapping.target? s := by
  simp [insert, target?, Std.TreeMap.getElem?_insert]

theorem source?_insert (mapping : Mapping) (x y t : Nat) :
    (mapping.insert x y).source? t = if y = t then some x else mapping.source? t := by
  simp [insert, source?, Std.TreeMap.getElem?_insert]

theorem mem_pairs : (s, t) ∈ mapping.pairs ↔ mapping.target? s = some t :=
  Std.TreeMap.mem_toList_iff_getElem?_eq_some

/-- No source node is in two pairs. -/
theorem nodup_pairs_fst (mapping : Mapping) : (mapping.pairs.map Prod.fst).Nodup := by
  refine List.pairwise_map.2 (mapping.forward.distinct_keys_toList.imp ?_)
  intro a b h heq
  exact h (by simp [heq])

/-- No target node of a one-to-one mapping is in two pairs. -/
theorem OneToOne.nodup_pairs_snd (h : mapping.OneToOne) : (mapping.pairs.map Prod.snd).Nodup := by
  refine List.pairwise_map.2 ((List.pairwise_map.1 mapping.nodup_pairs_fst).imp_of_mem ?_)
  rintro ⟨s, t⟩ ⟨x, y⟩ ha hb hne (rfl : t = y)
  exact hne (h.source_eq (mem_pairs.1 ha) (mem_pairs.1 hb))

/-! ### Adding pairs -/

theorem fits_of_free (hx : mapping.target? x = none) (hy : mapping.source? y = none) :
    mapping.Fits x y := by
  constructor
  · intro t ht
    rw [hx] at ht
    cases ht
  · intro s hs
    rw [hy] at hs
    cases hs

/-- A pair of free nodes keeps a mapping one-to-one. -/
theorem OneToOne.insert (h : mapping.OneToOne) (hx : mapping.target? x = none)
    (hy : mapping.source? y = none) : (mapping.insert x y).OneToOne := by
  intro s t
  rw [target?_insert, source?_insert]
  by_cases hs : x = s <;> by_cases ht : y = t
  · simp [hs, ht]
  · subst hs
    have hnone : mapping.source? t ≠ some x := fun h' => by simp [(h x t).2 h'] at hx
    simp [ht, hnone]
  · subst ht
    have hnone : mapping.target? s ≠ some y := fun h' => by simp [(h s y).1 h'] at hy
    simp [hs, hnone]
  · simpa [hs, ht] using h s t

theorem gains_insert (hx : mapping.target? x = none) :
    mapping.Gains (mapping.insert x y) fun s t => s = x ∧ t = y := by
  intro s t
  rw [target?_insert]
  by_cases hs : x = s
  · subst hs
    simp [hx, eq_comm]
  · have hs' : ¬ s = x := fun h => hs h.symm
    simp [hs, hs']

theorem Outcome.toExcept_eq_ok {outcome : Outcome} :
    outcome.toExcept = .ok mapping ↔ outcome = (mapping, none) := by
  rcases outcome with ⟨other, - | violation⟩ <;> simp [toExcept]

/-- A pair that fits can be added. -/
theorem OneToOne.add (h : mapping.OneToOne) (hfit : mapping.Fits x y) :
    ∃ other, mapping.add x y = (other, none) ∧ other.OneToOne ∧
      mapping.Gains other fun s t => s = x ∧ t = y := by
  -- If one of the nodes has a partner, the pair is there already.
  have hthere : mapping.target? x = some y → ∃ other, mapping.add x y = (other, none) ∧
      other.OneToOne ∧ mapping.Gains other fun s t => s = x ∧ t = y := by
    intro ht
    have hs := (h x y).1 ht
    refine ⟨mapping, by simp [Mapping.add, ht, hs], h, ?_⟩
    intro s t
    constructor
    · exact Or.inl
    · rintro (h' | ⟨rfl, rfl⟩)
      · exact h'
      · exact ht
  cases ht : mapping.target? x with
  | some t =>
    obtain rfl := hfit.1 t ht
    exact hthere ht
  | none =>
    cases hs : mapping.source? y with
    | some s =>
      obtain rfl := hfit.2 s hs
      exact hthere ((h s y).2 hs)
    | none =>
      exact ⟨mapping.insert x y, by simp [Mapping.add, ht, hs], h.insert ht hs, gains_insert ht⟩

/-- Adding a pair does not change what fits elsewhere. -/
theorem Fits.mono (h : mapping.OneToOne) (h' : other.OneToOne) {new : Nat → Nat → Prop}
    (hgain : mapping.Gains other new) (hx : ∀ t, ¬ new x t) (hy : ∀ s, ¬ new s y)
    (hfit : mapping.Fits x y) : other.Fits x y := by
  constructor
  · intro t ht
    rcases (hgain x t).1 ht with ht | ht
    · exact hfit.1 t ht
    · exact absurd ht (hx t)
  · intro s hs
    rcases (hgain s y).1 ((h' s y).2 hs) with hs | hs
    · exact hfit.2 s ((h s y).1 hs)
    · exact absurd hs (hy s)

/-- **Fitting pairs can be added.**  The result holds the old pairs and the new ones. -/
theorem OneToOne.addAll (h : mapping.OneToOne) {pairs : List (Nat × Nat)}
    (hfst : (pairs.map Prod.fst).Nodup) (hsnd : (pairs.map Prod.snd).Nodup)
    (hfit : ∀ p ∈ pairs, mapping.Fits p.1 p.2) :
    ∃ other, mapping.addAll pairs = .ok other ∧ other.OneToOne ∧
      mapping.Gains other fun s t => (s, t) ∈ pairs := by
  suffices hpairs : ∃ other, mapping.addPairs pairs = (other, none) ∧ other.OneToOne ∧
      mapping.Gains other fun s t => (s, t) ∈ pairs by
    obtain ⟨other, hadd, hother⟩ := hpairs
    exact ⟨other, by rw [Mapping.addAll, hadd, Outcome.toExcept], hother⟩
  induction pairs generalizing mapping with
  | nil => exact ⟨mapping, rfl, h, by simp [Gains]⟩
  | cons pair pairs ih =>
    obtain ⟨x, y⟩ := pair
    obtain ⟨hx, hfst⟩ := List.nodup_cons.1 hfst
    obtain ⟨hy, hsnd⟩ := List.nodup_cons.1 hsnd
    obtain ⟨next, hadd, hnext, hgain⟩ := h.add (hfit (x, y) (List.mem_cons_self ..))
    have hfit' : ∀ p ∈ pairs, next.Fits p.1 p.2 := by
      intro p hp
      refine Fits.mono h hnext hgain ?_ ?_ (hfit p (List.mem_cons_of_mem _ hp))
      · rintro t ⟨he, -⟩
        exact hx (he ▸ List.mem_map_of_mem hp)
      · rintro s ⟨-, he⟩
        exact hy (he ▸ List.mem_map_of_mem hp)
    obtain ⟨other, hall, hother, hgains⟩ := ih hnext hfst hsnd hfit'
    refine ⟨other, by simp only [addPairs, hadd, hall], hother, ?_⟩
    intro s t
    rw [hgains s t, hgain s t]
    simp only [List.mem_cons, Prod.mk.injEq]
    tauto

/-! ### Taking over the pairs of another mapping -/

theorem oneToOne_absorb (h : mapping.OneToOne) (dropped : Nat) (pair : Nat × Nat) :
    (absorb (mapping, dropped) pair).1.OneToOne := by
  obtain ⟨x, y⟩ := pair
  rw [absorb]
  split
  · exact h
  · split
    · exact h
    · rename_i hfree
      simp only [hasSource, hasTarget, Bool.or_eq_true, not_or, Bool.not_eq_true,
        Option.isSome_eq_false_iff, Option.isNone_iff_eq_none] at hfree
      exact h.insert hfree.1 hfree.2

theorem target?_absorb {dropped : Nat} {pair : Nat × Nat}
    (h : (absorb (mapping, dropped) pair).1.target? s = some t) :
    mapping.target? s = some t ∨ pair = (s, t) := by
  obtain ⟨x, y⟩ := pair
  rw [absorb] at h
  split at h
  · exact Or.inl h
  · split at h
    · exact Or.inl h
    · rw [target?_insert] at h
      split at h
      · rename_i hx
        exact Or.inr (by rw [hx, Option.some.inj h])
      · exact Or.inl h

/-- Merging keeps a mapping one-to-one and takes over pairs of the other mapping only. -/
theorem OneToOne.merge (h : mapping.OneToOne) (other : Mapping) :
    (mapping.merge other).1.OneToOne ∧ ∀ s t, (mapping.merge other).1.target? s = some t →
      mapping.target? s = some t ∨ other.target? s = some t := by
  suffices hfold : ∀ (pairs : List (Nat × Nat)) (state : Mapping × Nat), state.1.OneToOne →
      (pairs.foldl absorb state).1.OneToOne ∧ ∀ s t,
        (pairs.foldl absorb state).1.target? s = some t →
          state.1.target? s = some t ∨ (s, t) ∈ pairs by
    obtain ⟨hone, hpairs⟩ := hfold other.pairs (mapping, 0) h
    exact ⟨hone, fun s t ht => (hpairs s t ht).imp_right mem_pairs.1⟩
  intro pairs
  induction pairs with
  | nil => exact fun state hstate => ⟨hstate, fun s t ht => Or.inl ht⟩
  | cons pair pairs ih =>
    intro state hstate
    obtain ⟨hone, hpairs⟩ := ih (absorb state pair) (oneToOne_absorb hstate state.2 pair)
    refine ⟨hone, fun s t ht => ?_⟩
    rcases hpairs s t ht with ht | ht
    · rcases target?_absorb ht with ht | rfl
      · exact Or.inl ht
      · exact Or.inr (List.mem_cons_self ..)
    · exact Or.inr (List.mem_cons_of_mem _ ht)

end Reshape.Mapping
