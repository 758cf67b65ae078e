/-! # Overlap and first-come pairing of two lists

The overlap says how many elements two lists share when each element counts as often as it occurs.
In first-come pairing, every item of one list takes the first equal item of the other list that is
still there. -/

namespace Reshape.Sequence

variable {α : Type} [BEq α]

/-- The size of the common part of two lists, each taken as a multiset. -/
def overlap : List α → List α → Nat
  | [], _ => 0
  | x :: xs, ys => if ys.contains x then overlap xs (ys.erase x) + 1 else overlap xs ys

/-- Pair the items of a list, numbered from `i` on, with items that carry numbers of their own. -/
def firstComeFrom (i : Nat) : List α → List (α × Nat) → List (Nat × Nat)
  | [], _ => []
  | x :: xs, ys =>
    match ys.find? (·.1 == x) with
    | some (_, j) => (i, j) :: firstComeFrom (i + 1) xs (ys.eraseP (·.1 == x))
    | none => firstComeFrom (i + 1) xs ys

/-- Pair every item of a list with the first equal item of a numbered list that is not yet taken. -/
def firstCome (xs : List α) (ys : List (α × Nat)) : List (Nat × Nat) :=
  firstComeFrom 0 xs ys

end Reshape.Sequence
