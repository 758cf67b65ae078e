import Mathlib
import Reshape.Sequence.Alignment

/-! # Alignments

An alignment of two sequences is a list of pairs of positions that grows on both sides and relates
elements only.  Both sides of an alignment then read off a part of their sequence in its order.
What `align` computes is an alignment.

`align` fills a table of lengths and reads the alignment off it.  The proofs follow another table,
whose cells hold whole alignments of two suffixes.  Both tables obey one recurrence, so the lengths
are those of the alignments, and the read-off takes the turns that the alignments took, also where
two of them are equally long. -/

namespace Reshape.Sequence

/-! ### A table of alignments -/

/-- An alignment of two suffixes with its length. -/
structure Chain where
  length : Nat
  pairs : List (Nat × Nat)

namespace Chain

/-- The alignment without pairs. -/
def empty : Chain := ⟨0, []⟩

/-- One more pair in front. -/
def extend (i j : Nat) (chain : Chain) : Chain :=
  ⟨chain.length + 1, (i, j) :: chain.pairs⟩

end Chain

/-- The cells of the suffixes that start with the element at `i` on one side, from the cells `below`
of those that start behind it. The columns start at `j`. -/
def chainRow {β : Type} (related : β → Bool) (i j : Nat) : List β → List Chain → List Chain
  | [], _ => [.empty]
  | y :: ys, below =>
    let row := chainRow related i (j + 1) ys below.tail
    let right := row.headD .empty
    let down := below.headD .empty
    let cell :=
      if related y then (below.tail.headD .empty).extend i j
      else if right.length ≤ down.length then down else right
    cell :: row

/-- The cells of all suffixes of the second sequence against the elements of the first one, which
start at position `i`. -/
def chainTable {α β : Type} (related : α → β → Bool) (ys : List β) : Nat → List α → List Chain
  | _, [] => List.replicate (ys.length + 1) .empty
  | i, x :: xs => chainRow (related x) i 0 ys (chainTable related ys (i + 1) xs)

variable {α β : Type} {related : α → β → Bool} {xs : List α} {ys : List β}

/-- The cell of the suffixes that start at two positions. -/
def chainAt (related : α → β → Bool) (xs : List α) (ys : List β) (i j : Nat) : Chain :=
  (chainTable related ys i (xs.drop i))[j]?.getD .empty

theorem getElem?_chainRow {related : β → Bool} (i j k : Nat) (below : List Chain) :
    (chainRow related i j ys below)[k]?.getD .empty =
      match ys[k]? with
      | none => .empty
      | some y =>
        if related y then (below[k + 1]?.getD .empty).extend i (j + k)
        else
          let right := (chainRow related i j ys below)[k + 1]?.getD .empty
          let down := below[k]?.getD .empty
          if right.length ≤ down.length then down else right := by
  induction ys generalizing j k below with
  | nil => cases k <;> simp [chainRow]
  | cons y ys ih =>
    rw [chainRow]
    cases k with
    | zero => simp [List.headD_eq_head?_getD, List.head?_eq_getElem?]
    | succ k =>
      simp only [List.getElem?_cons_succ]
      rw [ih, List.getElem?_tail, List.getElem?_tail, show j + 1 + k = j + (k + 1) by omega]

/-- The recurrence of the cells. -/
theorem chainAt_eq (related : α → β → Bool) (xs : List α) (ys : List β) (i j : Nat) :
    chainAt related xs ys i j =
      match xs[i]?, ys[j]? with
      | some x, some y =>
        if related x y then (chainAt related xs ys (i + 1) (j + 1)).extend i j
        else
          let right := chainAt related xs ys i (j + 1)
          let down := chainAt related xs ys (i + 1) j
          if right.length ≤ down.length then down else right
      | _, _ => .empty := by
  cases hx : xs[i]? with
  | none =>
    rw [chainAt, List.drop_eq_nil_of_le (List.getElem?_eq_none_iff.1 hx), chainTable,
      List.getElem?_replicate]
    split <;> rfl
  | some x =>
    obtain ⟨hi, rfl⟩ := List.getElem?_eq_some_iff.1 hx
    rw [chainAt, List.drop_eq_getElem_cons hi, chainTable, getElem?_chainRow, Nat.zero_add]
    simp only [chainAt, List.drop_eq_getElem_cons hi, chainTable]
    cases ys[j]? <;> rfl

/-! ### The table of lengths -/

namespace Table

variable {table : Table}

/-- A table with rows of one length. -/
structure HasSize (table : Table) (rows columns : Nat) : Prop where
  size_eq : table.size = rows
  size_row : ∀ i < rows, (table.getD i #[]).size = columns

theorem hasSize_zeros (rows columns : Nat) : (zeros rows columns).HasSize rows columns := by
  refine ⟨Array.size_replicate, fun i hi => ?_⟩
  simp [zeros, Array.getD_eq_getD_getElem?, hi]

theorem cell_zeros (rows columns i j : Nat) : (zeros rows columns).cell i j = 0 := by
  simp only [cell, zeros, Array.getD_eq_getD_getElem?, Array.getElem?_replicate]
  split
  · rw [Option.getD_some, Array.getElem?_replicate]
    split <;> rfl
  · rfl

variable {rows columns i j : Nat}

theorem getD_setCell (table : Table) (i j value a : Nat) : (table.setCell i j value).getD a #[] =
    if i = a then (table.getD a #[]).setIfInBounds j value else table.getD a #[] := by
  simp only [setCell, Array.getD_eq_getD_getElem?, Array.getElem?_modify]
  by_cases ha : i = a
  · subst ha
    cases table[i]? <;> simp
  · simp [ha]

theorem HasSize.setCell (h : table.HasSize rows columns) (value : Nat) :
    (table.setCell i j value).HasSize rows columns := by
  refine ⟨Array.size_modify.trans h.size_eq, fun a ha => ?_⟩
  rw [getD_setCell]
  split
  · rw [Array.size_setIfInBounds, h.size_row a ha]
  · exact h.size_row a ha

theorem HasSize.cell_setCell (h : table.HasSize rows columns) (hi : i < rows) (hj : j < columns)
    (value a b : Nat) : (table.setCell i j value).cell a b =
      if i = a ∧ j = b then value else table.cell a b := by
  rw [cell, getD_setCell, cell]
  by_cases ha : i = a
  · subst ha
    have hlt : j < (table.getD i #[]).size := by rwa [h.size_row i hi]
    rw [if_pos rfl, Array.getD_eq_getD_getElem?, Array.getElem?_setIfInBounds]
    by_cases hb : j = b
    · subst hb
      rw [if_pos rfl, if_pos hlt, if_pos ⟨rfl, rfl⟩, Option.getD_some]
    · simp [hb, Array.getD_eq_getD_getElem?]
  · simp [ha]

end Table

section Loops

variable (related : α → β → Bool) (xs : List α) (ys : List β)

/-- The table is filled behind the cell `(i, j)`: from there on in row `i`, and in the rows
below. -/
structure Filled (table : Table) (i j : Nat) : Prop where
  hasSize : table.HasSize (xs.length + 1) (ys.length + 1)
  cell_eq : ∀ a b, table.cell a b =
    if i < a ∨ i = a ∧ j ≤ b then (chainAt related xs ys a b).length else 0

variable {related xs ys} {table : Table} {i j : Nat}

theorem length_chainAt_eq_zero (h : xs.length ≤ i ∨ ys.length ≤ j) :
    (chainAt related xs ys i j).length = 0 := by
  rw [chainAt_eq]
  rcases h with h | h
  · rw [List.getElem?_eq_none h]
    rfl
  · rw [List.getElem?_eq_none h]
    cases xs[i]? <;> rfl

theorem filled_zeros : Filled related xs ys
    (.zeros (xs.length + 1) (ys.length + 1)) xs.length 0 := by
  refine ⟨Table.hasSize_zeros .., fun a b => ?_⟩
  rw [Table.cell_zeros]
  split
  · rw [length_chainAt_eq_zero (Or.inl (by omega))]
  · rfl

/-- Filling one more cell. -/
theorem Filled.step (h : Filled related xs ys table i (j + 1)) (hi : i < xs.length)
    (hj : j < ys.length) : Filled related xs ys
      (table.setCell i j (lengthAt related xs.toArray ys.toArray table i j)) i j := by
  have hlength : lengthAt related xs.toArray ys.toArray table i j =
      (chainAt related xs ys i j).length := by
    have hdiagonal : table.cell (i + 1) (j + 1) = (chainAt related xs ys (i + 1) (j + 1)).length :=
      by rw [h.cell_eq, if_pos (by omega)]
    have hdown : table.cell (i + 1) j = (chainAt related xs ys (i + 1) j).length := by
      rw [h.cell_eq, if_pos (by omega)]
    have hright : table.cell i (j + 1) = (chainAt related xs ys i (j + 1)).length := by
      rw [h.cell_eq, if_pos (by omega)]
    rw [lengthAt, chainAt_eq, hdiagonal, hdown, hright]
    simp only [List.getElem?_toArray, List.getElem?_eq_getElem hi, List.getElem?_eq_getElem hj]
    split
    · rfl
    · split <;> omega
  refine ⟨h.hasSize.setCell _, fun a b => ?_⟩
  rw [h.hasSize.cell_setCell (by omega) (by omega), h.cell_eq, hlength]
  by_cases hcell : i = a ∧ j = b
  · obtain ⟨rfl, rfl⟩ := hcell
    simp
  · rw [if_neg hcell]
    exact if_congr (by omega) rfl rfl

theorem Filled.fillRow (h : Filled related xs ys table i ys.length) (hi : i < xs.length) :
    Filled related xs ys (fillRow related xs.toArray ys.toArray i table) i 0 := by
  have hcells : ∀ n ≤ ys.length, ∀ table, Filled related xs ys table i n →
      Filled related xs ys ((List.range n).foldr (fun j table =>
        table.setCell i j (lengthAt related xs.toArray ys.toArray table i j)) table) i 0 := by
    intro n
    induction n with
    | zero => exact fun _ table h => h
    | succ n ih =>
      intro hn table h
      rw [List.range_succ, List.foldr_append, List.foldr_cons, List.foldr_nil]
      exact ih (by omega) _ (h.step hi (by omega))
  exact hcells ys.length le_rfl table h

/-- Between two rows: behind the last column of a row there are only zeros. -/
theorem Filled.next (h : Filled related xs ys table (i + 1) 0) :
    Filled related xs ys table i ys.length := by
  refine ⟨h.hasSize, fun a b => ?_⟩
  rw [h.cell_eq]
  by_cases hrow : i = a ∧ ys.length ≤ b
  · rw [if_pos (Or.inr hrow), if_neg (by omega), length_chainAt_eq_zero (Or.inr hrow.2)]
  · exact if_congr (by omega) rfl rfl

/-- The table of lengths holds the lengths of the alignments. -/
theorem cell_lengthTable (related : α → β → Bool) (xs : List α) (ys : List β) (i j : Nat) :
    (lengthTable related xs.toArray ys.toArray).cell i j = (chainAt related xs ys i j).length := by
  have hrows : ∀ n ≤ xs.length, ∀ table, Filled related xs ys table n 0 →
      Filled related xs ys
        ((List.range n).foldr (Sequence.fillRow related xs.toArray ys.toArray) table) 0 0 := by
    intro n
    induction n with
    | zero => exact fun _ table h => h
    | succ n ih =>
      intro hn table h
      rw [List.range_succ, List.foldr_append, List.foldr_cons, List.foldr_nil]
      exact ih (by omega) _ (h.next.fillRow (by omega))
  have hfilled := hrows xs.length le_rfl _ filled_zeros
  have hcell := hfilled.cell_eq i j
  rwa [if_pos (by omega)] at hcell

/-! ### Reading the table -/

/-- What is read off a table with the right lengths is the alignment in the cell. -/
theorem readOff_eq {fuel : Nat}
    (htable : ∀ a b, table.cell a b = (chainAt related xs ys a b).length)
    (hfuel : (xs.length - i) + (ys.length - j) ≤ fuel) :
    readOff related xs.toArray ys.toArray table fuel i j = (chainAt related xs ys i j).pairs := by
  induction fuel generalizing i j with
  | zero =>
    rw [readOff, chainAt_eq, List.getElem?_eq_none (by omega : xs.length ≤ i)]
    rfl
  | succ fuel ih =>
    rw [readOff, chainAt_eq]
    simp only [List.getElem?_toArray]
    cases hx : xs[i]? with
    | none => rfl
    | some x =>
      cases hy : ys[j]? with
      | none => rfl
      | some y =>
        have hi := (List.getElem?_eq_some_iff.1 hx).1
        have hj := (List.getElem?_eq_some_iff.1 hy).1
        simp only [htable]
        split
        · rw [ih (by omega)]
          rfl
        · -- The same comparison decides which of two cells is kept and which way to go.
          split
          · rw [ih (by omega)]
          · rw [ih (by omega)]

end Loops

/-- What `align` reads off is the alignment in the cell of the two whole sequences. -/
theorem align_eq_chainTable (related : α → β → Bool) (xs : List α) (ys : List β) :
    align related xs ys = ((chainTable related ys 0 xs).headD .empty).pairs := by
  have hread : align related xs ys = (chainAt related xs ys 0 0).pairs :=
    readOff_eq (cell_lengthTable related xs ys) (by simp)
  rw [hread, chainAt, List.drop_zero, List.headD_eq_head?_getD, List.head?_eq_getElem?]

/-! ### What is computed is an alignment -/

/-- Pairs of positions of related elements, growing on both sides. -/
structure IsAlignment (related : α → β → Bool) (xs : List α) (ys : List β)
    (pairs : List (Nat × Nat)) : Prop where
  increasing : pairs.Pairwise fun p q => p.1 < q.1 ∧ p.2 < q.2
  related_of_mem : ∀ p ∈ pairs, ∃ x y, xs[p.1]? = some x ∧ ys[p.2]? = some y ∧ related x y = true

/-- A cell holds an alignment of the suffixes that start at `i` and at `j`. -/
def Aligns (related : α → β → Bool) (xs : List α) (ys : List β) (i j : Nat)
    (chain : Chain) : Prop :=
  IsAlignment related xs ys chain.pairs ∧ ∀ p ∈ chain.pairs, i ≤ p.1 ∧ j ≤ p.2

theorem aligns_empty (i j : Nat) : Aligns related xs ys i j .empty :=
  ⟨⟨List.Pairwise.nil, fun _ h => absurd h List.not_mem_nil⟩, fun _ h => absurd h List.not_mem_nil⟩

theorem Aligns.mono {i j i' j' : Nat} {chain : Chain} (h : Aligns related xs ys i j chain)
    (hi : i' ≤ i) (hj : j' ≤ j) : Aligns related xs ys i' j' chain :=
  ⟨h.1, fun p hp => ⟨Nat.le_trans hi (h.2 p hp).1, Nat.le_trans hj (h.2 p hp).2⟩⟩

theorem Aligns.extend {i j : Nat} {chain : Chain} {x : α} {y : β}
    (h : Aligns related xs ys (i + 1) (j + 1) chain) (hx : xs[i]? = some x) (hy : ys[j]? = some y)
    (hrel : related x y = true) : Aligns related xs ys i j (chain.extend i j) := by
  refine ⟨⟨List.pairwise_cons.2 ⟨fun p hp => ?_, h.1.increasing⟩, fun p hp => ?_⟩, fun p hp => ?_⟩
  · exact ⟨(h.2 p hp).1, (h.2 p hp).2⟩
  · rcases List.mem_cons.1 hp with rfl | hp
    · exact ⟨x, y, hx, hy, hrel⟩
    · exact h.1.related_of_mem p hp
  · rcases List.mem_cons.1 hp with rfl | hp
    · exact ⟨Nat.le_refl _, Nat.le_refl _⟩
    · have := h.2 p hp
      omega

/-- The cells of a row, from column `j` on. -/
def RowAligns (related : α → β → Bool) (xs : List α) (ys : List β) (i : Nat) :
    Nat → List Chain → Prop
  | _, [] => True
  | j, chain :: row => Aligns related xs ys i j chain ∧ RowAligns related xs ys i (j + 1) row

theorem RowAligns.head {i j : Nat} {row : List Chain} (h : RowAligns related xs ys i j row) :
    Aligns related xs ys i j (row.headD .empty) := by
  cases row with
  | nil => exact aligns_empty i j
  | cons chain row => exact h.1

theorem RowAligns.tail {i j : Nat} {row : List Chain} (h : RowAligns related xs ys i j row) :
    RowAligns related xs ys i (j + 1) row.tail := by
  cases row with
  | nil => trivial
  | cons chain row => exact h.2

theorem rowAligns_chainRow {i j : Nat} {x : α} {suffix : List β} {below : List Chain}
    (hx : xs[i]? = some x) (hsuffix : ys.drop j = suffix)
    (hbelow : RowAligns related xs ys (i + 1) j below) :
    RowAligns related xs ys i j (chainRow (related x) i j suffix below) := by
  induction suffix generalizing j below with
  | nil => exact ⟨aligns_empty i j, trivial⟩
  | cons y suffix ih =>
    have hy : ys[j]? = some y := by
      rw [← List.head?_drop, hsuffix, List.head?_cons]
    have hrest : ys.drop (j + 1) = suffix := by
      rw [← List.tail_drop, hsuffix, List.tail_cons]
    have hrow := ih hrest hbelow.tail
    refine ⟨?_, hrow⟩
    split
    · rename_i hrel
      exact hbelow.tail.head.extend hx hy hrel
    · split
      · exact hbelow.head.mono (Nat.le_succ i) (Nat.le_refl j)
      · exact hrow.head.mono (Nat.le_refl i) (Nat.le_succ j)

theorem rowAligns_replicate (i j n : Nat) :
    RowAligns related xs ys i j (List.replicate n .empty) := by
  induction n generalizing j with
  | zero => trivial
  | succ n ih => exact ⟨aligns_empty i j, ih (j + 1)⟩

theorem rowAligns_chainTable {i : Nat} {suffix : List α} (hsuffix : xs.drop i = suffix) :
    RowAligns related xs ys i 0 (chainTable related ys i suffix) := by
  induction suffix generalizing i with
  | nil => exact rowAligns_replicate i 0 _
  | cons x suffix ih =>
    have hx : xs[i]? = some x := by
      rw [← List.head?_drop, hsuffix, List.head?_cons]
    have hrest : xs.drop (i + 1) = suffix := by
      rw [← List.tail_drop, hsuffix, List.tail_cons]
    exact rowAligns_chainRow hx List.drop_zero (ih hrest)

/-- **What `align` gives is an alignment.** -/
theorem isAlignment_align (related : α → β → Bool) (xs : List α) (ys : List β) :
    IsAlignment related xs ys (align related xs ys) := by
  rw [align_eq_chainTable]
  exact (rowAligns_chainTable (i := 0) List.drop_zero).head.1

/-! ### Reading off one side -/

/-- Growing positions read off a part of a list in its order. -/
theorem sublist_of_positions (xs : List α) (offset : Nat) (default : α) {positions : List Nat}
    (hgrow : positions.Pairwise (· < ·))
    (hbound : ∀ i ∈ positions, offset ≤ i ∧ i < offset + xs.length) :
    (positions.map fun i => xs.getD (i - offset) default).Sublist xs := by
  induction xs generalizing offset positions with
  | nil =>
    cases positions with
    | nil => exact List.Sublist.refl _
    | cons i positions =>
      have := hbound i (List.mem_cons_self ..)
      simp only [List.length_nil] at this
      omega
  | cons x xs ih =>
    -- Positions behind the head read the tail.
    have htail : ∀ {positions : List Nat}, positions.Pairwise (· < ·) →
        (∀ i ∈ positions, offset + 1 ≤ i ∧ i < offset + 1 + xs.length) →
        (positions.map fun i => (x :: xs).getD (i - offset) default).Sublist xs := by
      intro positions hgrow hbound
      have hread : (positions.map fun i => (x :: xs).getD (i - offset) default) =
          positions.map fun i => xs.getD (i - (offset + 1)) default := by
        refine List.map_congr_left fun i hi => ?_
        have := hbound i hi
        rw [show i - offset = i - (offset + 1) + 1 by omega, List.getD_cons_succ]
      rw [hread]
      exact ih (offset + 1) hgrow hbound
    simp only [List.length_cons] at hbound
    cases positions with
    | nil => exact List.nil_sublist _
    | cons i positions =>
      obtain ⟨hlt, hgrow'⟩ := List.pairwise_cons.1 hgrow
      have hi := hbound i (List.mem_cons_self ..)
      have hbehind : ∀ k ∈ positions, offset + 1 ≤ k ∧ k < offset + 1 + xs.length := by
        intro k hk
        have := hlt k hk
        have := hbound k (List.mem_cons_of_mem _ hk)
        omega
      by_cases hhead : i = offset
      · rw [List.map_cons, hhead, Nat.sub_self, List.getD_cons_zero]
        exact (htail hgrow' hbehind).cons_cons x
      · refine List.Sublist.cons x (htail hgrow fun k hk => ?_)
        rcases List.mem_cons.1 hk with rfl | hk
        · omega
        · exact hbehind k hk

namespace IsAlignment

variable {pairs : List (Nat × Nat)}

theorem sublist_left (h : IsAlignment related xs ys pairs) (default : α) :
    (pairs.map fun p => xs.getD p.1 default).Sublist xs := by
  have hgrow : (pairs.map Prod.fst).Pairwise (· < ·) :=
    List.pairwise_map.2 (h.increasing.imp fun hpq => hpq.1)
  have hread := sublist_of_positions xs 0 default hgrow fun i hi => by
    obtain ⟨p, hp, rfl⟩ := List.mem_map.1 hi
    obtain ⟨x, y, hx, -⟩ := h.related_of_mem p hp
    have := (List.getElem?_eq_some_iff.1 hx).1
    omega
  rwa [List.map_map] at hread

theorem sublist_right (h : IsAlignment related xs ys pairs) (default : β) :
    (pairs.map fun p => ys.getD p.2 default).Sublist ys := by
  have hgrow : (pairs.map Prod.snd).Pairwise (· < ·) :=
    List.pairwise_map.2 (h.increasing.imp fun hpq => hpq.2)
  have hread := sublist_of_positions ys 0 default hgrow fun i hi => by
    obtain ⟨p, hp, rfl⟩ := List.mem_map.1 hi
    obtain ⟨x, y, -, hy, -⟩ := h.related_of_mem p hp
    have := (List.getElem?_eq_some_iff.1 hy).1
    omega
  rwa [List.map_map] at hread

theorem related_getD (h : IsAlignment related xs ys pairs) (a : α) (b : β) {p : Nat × Nat}
    (hp : p ∈ pairs) : related (xs.getD p.1 a) (ys.getD p.2 b) = true := by
  obtain ⟨x, y, hx, hy, hrel⟩ := h.related_of_mem p hp
  rw [List.getD_eq_getElem?_getD, List.getD_eq_getElem?_getD, hx, hy]
  exact hrel

end IsAlignment

/-! ### Sequences that are related one by one -/

/-- Related suffixes are aligned one by one. -/
theorem getElem?_chainTable {suffix : List α} {i j : Nat}
    (h : List.Forall₂ (fun x y => related x y = true) suffix (ys.drop j)) :
    (chainTable related ys i suffix)[j]?.getD .empty =
      ⟨suffix.length, (List.range suffix.length).map fun k => (i + k, j + k)⟩ := by
  induction suffix generalizing i j with
  | nil =>
    rw [chainTable, List.getElem?_replicate]
    split <;> rfl
  | cons x suffix ih =>
    obtain ⟨y, rest, hxy, hrest, hdrop⟩ := List.forall₂_cons_left_iff.1 h
    have hy : ys[j]? = some y := by rw [← List.head?_drop, hdrop, List.head?_cons]
    have hbehind : ys.drop (j + 1) = rest := by rw [← List.tail_drop, hdrop, List.tail_cons]
    rw [chainTable, getElem?_chainRow, hy]
    simp only [hxy, ↓reduceIte]
    rw [ih (hbehind ▸ hrest), Chain.extend, List.length_cons, List.range_succ_eq_map, List.map_cons,
      List.map_map]
    simp [Function.comp_def, Nat.add_assoc, Nat.add_comm 1]

/-- Sequences that are related one by one are aligned one by one. -/
theorem align_eq_of_forall₂ (h : List.Forall₂ (fun x y => related x y = true) xs ys) :
    align related xs ys = (List.range xs.length).map fun k => (k, k) := by
  rw [← ys.drop_zero] at h
  have hcell := getElem?_chainTable (i := 0) h
  rw [← List.head?_eq_getElem?, ← List.headD_eq_head?_getD] at hcell
  rw [align_eq_chainTable, hcell]
  simp

/-- What is aligned are the elements at equal places. -/
theorem map_align_of_forall₂ (h : List.Forall₂ (fun x y => related x y = true) xs ys) (a : α)
    (b : β) :
    ((align related xs ys).map fun p => (xs.getD p.1 a, ys.getD p.2 b)) = xs.zip ys := by
  rw [align_eq_of_forall₂ h, List.map_map]
  refine List.ext_getElem (by simp [h.length_eq]) fun k hk hk' => ?_
  have hx : k < xs.length := by simpa using hk
  have hy : k < ys.length := h.length_eq ▸ hx
  simp [hx, hy]

theorem map_align_snd_of_forall₂ (h : List.Forall₂ (fun x y => related x y = true) xs ys) (b : β) :
    ((align related xs ys).map fun p => ys.getD p.2 b) = ys := by
  rw [align_eq_of_forall₂ h, List.map_map]
  refine List.ext_getElem (by simp [h.length_eq]) fun k hk hk' => ?_
  simp [hk']

end Reshape.Sequence
