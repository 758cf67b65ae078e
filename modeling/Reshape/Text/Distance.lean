/-! # Edit distance

The least number of single-element insertions, deletions and substitutions between two sequences.
The row of a prefix of the first sequence holds its distance to every prefix of the second one. Two
rows are enough: while one is filled the other one holds the row before, and then they change
places. -/

namespace Reshape.Text

/-- The row before and the row that is filled. -/
structure DistanceRows where
  before : Array Nat
  filling : Array Nat

namespace DistanceRows

variable {α : Type} [DecidableEq α]

/-- The rows for a second sequence of some length, before the first element. -/
def start (length : Nat) : DistanceRows where
  before := Array.range (length + 1)
  filling := Array.replicate (length + 1) 0

/-- Fill the cell behind the element at a position of the second sequence. -/
def fill (x : α) (rows : DistanceRows) (y : α) (j : Nat) : DistanceRows :=
  let cell := min (min (rows.before.getD (j + 1) 0 + 1) (rows.filling.getD j 0 + 1))
    (rows.before.getD j 0 + if x = y then 0 else 1)
  { rows with filling := rows.filling.setIfInBounds (j + 1) cell }

/-- Fill the row of the element at a position of the first sequence. -/
def fillRow (ys : List α) (rows : DistanceRows) (x : α) (i : Nat) : DistanceRows :=
  ys.zipIdx.foldl (fun rows (y, j) => rows.fill x y j)
    { rows with filling := rows.filling.setIfInBounds 0 (i + 1) }

/-- Let the two rows change places. -/
def swap (rows : DistanceRows) : DistanceRows where
  before := rows.filling
  filling := rows.before

end DistanceRows

/-- The edit distance of two sequences. -/
def distance {α : Type} [DecidableEq α] (xs ys : List α) : Nat :=
  if xs.isEmpty then ys.length
  else if ys.isEmpty then xs.length
  else
    let rows := xs.zipIdx.foldl (fun rows (x, i) => (rows.fillRow ys x i).swap)
      (DistanceRows.start ys.length)
    rows.before.getD ys.length 0

/-- The edit distance of two texts, counted in characters. -/
def editDistance (a b : String) : Nat :=
  distance a.toList b.toList

end Reshape.Text
