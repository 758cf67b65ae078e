/-! # Longest alignment of two sequences

An alignment pairs positions of two sequences, increasing on both sides, so that paired elements are
related. The relation is arbitrary. `align` gives a longest alignment. Related heads are paired;
where they are not related, the head of the first sequence is passed over if that costs no length.

A table is filled from the back: the cell of two positions holds the length of a longest alignment
of what starts there. The alignment is read off from the front. -/

namespace Reshape.Sequence

/-- A table of numbers, row by row. -/
abbrev Table := Array (Array Nat)

namespace Table

/-- The table of a size that holds zeros. -/
def zeros (rows columns : Nat) : Table :=
  Array.replicate rows (Array.replicate columns 0)

/-- The number in a cell; cells outside of the table hold zero. -/
def cell (table : Table) (i j : Nat) : Nat :=
  (table.getD i #[]).getD j 0

/-- Put a number into a cell. -/
def setCell (table : Table) (i j value : Nat) : Table :=
  table.modify i (·.setIfInBounds j value)

end Table

section Align

variable {α β : Type} (related : α → β → Bool) (xs : Array α) (ys : Array β)

/-- The length for two positions, from the lengths behind them. -/
def lengthAt (table : Table) (i j : Nat) : Nat :=
  match xs[i]?, ys[j]? with
  | some x, some y =>
    if related x y then table.cell (i + 1) (j + 1) + 1
    else max (table.cell (i + 1) j) (table.cell i (j + 1))
  | _, _ => 0

/-- Fill a row from the back. -/
def fillRow (i : Nat) (table : Table) : Table :=
  (List.range ys.size).foldr
    (fun j table => table.setCell i j (lengthAt related xs ys table i j)) table

/-- The table of lengths, filled from the last row up. -/
def lengthTable : Table :=
  (List.range xs.size).foldr (fillRow related xs ys) (.zeros (xs.size + 1) (ys.size + 1))

/-- Read an alignment off a table from two positions on, in at most `fuel` steps. -/
def readOff (table : Table) : Nat → Nat → Nat → List (Nat × Nat)
  | 0, _, _ => []
  | fuel + 1, i, j =>
    match xs[i]?, ys[j]? with
    | some x, some y =>
      if related x y then (i, j) :: readOff table fuel (i + 1) (j + 1)
      else if table.cell i (j + 1) ≤ table.cell (i + 1) j then readOff table fuel (i + 1) j
      else readOff table fuel i (j + 1)
    | _, _ => []

end Align

/-- The pairs of positions of a longest alignment of two sequences under a relation. -/
def align {α β : Type} (related : α → β → Bool) (xs : List α) (ys : List β) : List (Nat × Nat) :=
  let xs := xs.toArray
  let ys := ys.toArray
  readOff related xs ys (lengthTable related xs ys) (xs.size + ys.size) 0 0

end Reshape.Sequence
