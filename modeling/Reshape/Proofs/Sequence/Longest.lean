import Mathlib
import Reshape.Proofs.Sequence.Alignment

/-! # Longest alignments

No alignment of two sequences is longer than the one that `align` gives, whatever the relation is.
The elements of an alignment are a common subsequence, read off both sides, and the cell of two
suffixes is at least as long as any common subsequence of them.  Pairing two related heads never
costs length: of a common subsequence, only the first pair can use a head, and what is behind it
uses neither. -/

namespace Reshape.Sequence

variable {α β : Type} {related : α → β → Bool} {x : α} {xs : List α} {y : β} {ys : List β}
  {common : List (α × β)}

/-- Pairs of related elements, in the order that they have on both sides. -/
structure IsCommon (related : α → β → Bool) (xs : List α) (ys : List β)
    (common : List (α × β)) : Prop where
  left : (common.map Prod.fst).Sublist xs
  right : (common.map Prod.snd).Sublist ys
  related_of_mem : ∀ p ∈ common, related p.1 p.2 = true

/-- Behind the first pair, a common subsequence uses neither head. -/
theorem IsCommon.tail {first : α × β} (h : IsCommon related (x :: xs) (y :: ys) (first :: common)) :
    IsCommon related xs ys common :=
  ⟨h.left.tail, h.right.tail, fun p hp => h.related_of_mem p (List.mem_cons_of_mem _ hp)⟩

/-- Of two heads that are not related, a common subsequence leaves one out. -/
theorem IsCommon.skip (h : IsCommon related (x :: xs) (y :: ys) common)
    (hxy : related x y ≠ true) :
    IsCommon related xs (y :: ys) common ∨ IsCommon related (x :: xs) ys common := by
  rcases List.sublist_cons_iff.1 h.left with hleft | ⟨_, hfst, -⟩
  · exact Or.inl ⟨hleft, h.right, h.related_of_mem⟩
  rcases List.sublist_cons_iff.1 h.right with hright | ⟨_, hsnd, -⟩
  · exact Or.inr ⟨h.left, hright, h.related_of_mem⟩
  cases common with
  | nil => cases hfst
  | cons first common =>
    obtain ⟨rfl, -⟩ := List.cons.inj hfst
    obtain ⟨rfl, -⟩ := List.cons.inj hsnd
    exact absurd (h.related_of_mem first (List.mem_cons_self ..)) hxy

/-- A cell is at least as long as every common subsequence of two suffixes. -/
def Dominates (related : α → β → Bool) (xs : List α) (ys : List β) (chain : Chain) : Prop :=
  chain.pairs.length = chain.length ∧
    ∀ common, IsCommon related xs ys common → common.length ≤ chain.length

theorem dominates_nil_left (ys : List β) : Dominates related [] ys .empty := by
  refine ⟨rfl, fun common h => ?_⟩
  rw [List.map_eq_nil_iff.1 (List.sublist_nil.1 h.left)]
  exact Nat.zero_le _

theorem dominates_nil_right (xs : List α) : Dominates related xs [] .empty := by
  refine ⟨rfl, fun common h => ?_⟩
  rw [List.map_eq_nil_iff.1 (List.sublist_nil.1 h.right)]
  exact Nat.zero_le _

theorem Dominates.extend {chain : Chain} (h : Dominates related xs ys chain) (i j : Nat) :
    Dominates related (x :: xs) (y :: ys) (chain.extend i j) := by
  refine ⟨congrArg (· + 1) h.1, fun common hcommon => ?_⟩
  cases common with
  | nil => exact Nat.zero_le _
  | cons first common => exact Nat.succ_le_succ (h.2 common hcommon.tail)

theorem Dominates.skip {down right : Chain} (hxy : related x y ≠ true)
    (hdown : Dominates related xs (y :: ys) down) (hright : Dominates related (x :: xs) ys right) :
    Dominates related (x :: xs) (y :: ys)
      (if right.length ≤ down.length then down else right) := by
  have hlong : ∀ common, IsCommon related (x :: xs) (y :: ys) common →
      common.length ≤ down.length ∨ common.length ≤ right.length :=
    fun common h => (h.skip hxy).imp (hdown.2 common) (hright.2 common)
  split
  · rename_i hle
    exact ⟨hdown.1, fun common h => (hlong common h).elim id fun hr => hr.trans hle⟩
  · rename_i hlt
    refine ⟨hright.1, fun common h => (hlong common h).elim (fun hd => ?_) id⟩
    omega

/-- The cells of a row belong to the suffixes of the second sequence, the first one to all of it. -/
theorem dominates_headD {row : List Chain} (h : List.Forall₂ (Dominates related xs) ys.tails row) :
    Dominates related xs ys (row.headD .empty) := by
  have htails : ys.tails.head? = some ys := by cases ys <;> rfl
  obtain ⟨suffixes, htails⟩ := List.head?_eq_some_iff.1 htails
  rw [htails] at h
  obtain ⟨cell, cells, hcell, -, rfl⟩ := List.forall₂_cons_left_iff.1 h
  exact hcell

theorem forall₂_chainRow {below : List Chain} (i j : Nat)
    (h : List.Forall₂ (Dominates related xs) ys.tails below) :
    List.Forall₂ (Dominates related (x :: xs)) ys.tails (chainRow (related x) i j ys below) := by
  induction ys generalizing j below with
  | nil => exact .cons (dominates_nil_right _) .nil
  | cons y ys ih =>
    rw [List.tails_cons] at h ⊢
    obtain ⟨down, rest, hdown, hrest, rfl⟩ := List.forall₂_cons_left_iff.1 h
    have hrow := ih (j + 1) hrest
    refine .cons ?_ hrow
    by_cases hxy : related x y = true
    · simp only [hxy, ↓reduceIte]
      exact (dominates_headD hrest).extend i j
    · simp only [hxy, Bool.false_eq_true, ↓reduceIte]
      exact hdown.skip hxy (dominates_headD hrow)

theorem forall₂_chainTable (i : Nat) :
    List.Forall₂ (Dominates related xs) ys.tails (chainTable related ys i xs) := by
  induction xs generalizing i with
  | nil =>
    have hlength : ys.tails.length = ys.length + 1 := List.length_tails ys
    rw [chainTable, ← hlength, ← List.map_const', List.forall₂_map_right_iff]
    exact List.forall₂_same.2 fun suffix _ => dominates_nil_left suffix
  | cons x xs ih => exact forall₂_chainRow i 0 (ih (i + 1))

/-- **No common subsequence is longer than the alignment.** -/
theorem IsCommon.length_le (h : IsCommon related xs ys common) :
    common.length ≤ (align related xs ys).length := by
  obtain ⟨hlength, hlong⟩ := dominates_headD (forall₂_chainTable 0)
  rw [align_eq_chainTable, hlength]
  exact hlong common h

/-- What an alignment pairs is a common subsequence. -/
theorem IsAlignment.isCommon {pairs : List (Nat × Nat)} (h : IsAlignment related xs ys pairs)
    (a : α) (b : β) :
    IsCommon related xs ys (pairs.map fun p => (xs.getD p.1 a, ys.getD p.2 b)) where
  left := by
    rw [List.map_map]
    exact h.sublist_left a
  right := by
    rw [List.map_map]
    exact h.sublist_right b
  related_of_mem := by
    intro p hp
    obtain ⟨q, hq, rfl⟩ := List.mem_map.1 hp
    exact h.related_getD a b hq

/-- **No alignment is longer than the one that `align` gives.** -/
theorem IsAlignment.length_le {pairs : List (Nat × Nat)} (h : IsAlignment related xs ys pairs) :
    pairs.length ≤ (align related xs ys).length := by
  cases pairs with
  | nil => exact Nat.zero_le _
  | cons first pairs =>
    obtain ⟨a, b, -⟩ := h.related_of_mem first (List.mem_cons_self ..)
    have hle := (h.isCommon a b).length_le
    rwa [List.length_map] at hle

/-- The length of a longest alignment of two sequences. -/
def IsLongest (related : α → β → Bool) (xs : List α) (ys : List β) (length : Nat) : Prop :=
  (∃ pairs, IsAlignment related xs ys pairs ∧ pairs.length = length) ∧
    ∀ pairs, IsAlignment related xs ys pairs → pairs.length ≤ length

theorem isLongest_align (related : α → β → Bool) (xs : List α) (ys : List β) :
    IsLongest related xs ys (align related xs ys).length :=
  ⟨⟨_, isAlignment_align related xs ys, rfl⟩, fun _ h => h.length_le⟩

/-- **A longest matching that keeps the order.**  For all sequences and every relation, the
positions that `align` pairs grow on both sides, what they pair is related, and no list of pairs
with these properties is longer. -/
theorem align_longest_matching (related : α → β → Bool) (xs : List α) (ys : List β) :
    ((align related xs ys).Pairwise fun p q => p.1 < q.1 ∧ p.2 < q.2) ∧
    (∀ p ∈ align related xs ys,
      ∃ x y, xs[p.1]? = some x ∧ ys[p.2]? = some y ∧ related x y = true) ∧
    ∀ pairs : List (Nat × Nat), (pairs.Pairwise fun p q => p.1 < q.1 ∧ p.2 < q.2) →
      (∀ p ∈ pairs, ∃ x y, xs[p.1]? = some x ∧ ys[p.2]? = some y ∧ related x y = true) →
      pairs.length ≤ (align related xs ys).length := by
  have halign := isAlignment_align related xs ys
  refine ⟨halign.increasing, halign.related_of_mem, fun pairs hincreasing hrelated => ?_⟩
  exact IsAlignment.length_le ⟨hincreasing, hrelated⟩

/-- Under "one less", which is neither symmetric nor transitive, two pairs are as many as can be,
whichever they are. -/
theorem align_longest_matching_one_less :
    let related : Nat → Nat → Bool := fun x y => x + 1 == y
    let pairs := [(0, 1), (2, 2)]
    (pairs.Pairwise fun p q => p.1 < q.1 ∧ p.2 < q.2) ∧
      (∀ p ∈ pairs, ∃ x y, [3, 1, 2][p.1]? = some x ∧ [2, 4, 3][p.2]? = some y ∧
        related x y = true) ∧
      align related [3, 1, 2] [2, 4, 3] = [(1, 0), (2, 2)] ∧
      pairs.length ≤ (align related [3, 1, 2] [2, 4, 3]).length := by
  intro related pairs
  have hincreasing : pairs.Pairwise fun p q => p.1 < q.1 ∧ p.2 < q.2 := by decide
  have hrelated : ∀ p ∈ pairs, ∃ x y, [3, 1, 2][p.1]? = some x ∧ [2, 4, 3][p.2]? = some y ∧
      related x y = true := by
    intro p hp
    rcases List.mem_pair.1 hp with rfl | rfl
    · exact ⟨3, 4, rfl, rfl, rfl⟩
    · exact ⟨2, 3, rfl, rfl, rfl⟩
  exact ⟨hincreasing, hrelated, by decide,
    (align_longest_matching related [3, 1, 2] [2, 4, 3]).2.2 pairs hincreasing hrelated⟩

theorem IsLongest.eq_length {length : Nat} (h : IsLongest related xs ys length) :
    length = (align related xs ys).length := by
  obtain ⟨⟨pairs, hpairs, rfl⟩, hlong⟩ := h
  exact Nat.le_antisymm hpairs.length_le (hlong _ (isAlignment_align related xs ys))

/-! ### Renaming the elements -/

/-- A row depends on which elements are related, and on nothing else about them. -/
theorem chainRow_congr {related related' : β → Bool} (i j : Nat) (below : List Chain)
    (h : ∀ y ∈ ys, related y = related' y) :
    chainRow related i j ys below = chainRow related' i j ys below := by
  induction ys generalizing j below with
  | nil => rfl
  | cons y ys ih =>
    rw [chainRow, chainRow, h y (List.mem_cons_self ..),
      ih (j + 1) below.tail fun y' hy' => h y' (List.mem_cons_of_mem _ hy')]

theorem align_map {γ : Type} {related : γ → β → Bool} {related' : α → β → Bool} {f : α → γ}
    (h : ∀ x ∈ xs, ∀ y ∈ ys, related (f x) y = related' x y) :
    align related (xs.map f) ys = align related' xs ys := by
  have htable : ∀ i, chainTable related ys i (xs.map f) = chainTable related' ys i xs := by
    induction xs with
    | nil => exact fun _ => rfl
    | cons x xs ih =>
      intro i
      rw [List.map_cons, chainTable, chainTable,
        ih (fun x' hx' => h x' (List.mem_cons_of_mem _ hx')) (i + 1)]
      exact chainRow_congr i 0 _ (h x (List.mem_cons_self ..))
  rw [align_eq_chainTable, align_eq_chainTable, htable]

end Reshape.Sequence
