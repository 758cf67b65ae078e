import Reshape.Lines.Basic

/-! # Where two lists of lines are split

Two lists that differ at both ends are compared by searching for a shortest sequence of deletions
and insertions from both ends at once. Where the two searches meet the lists are split.

A search keeps, for every diagonal, how many lines of the first list it has passed. Diagonal `k`
holds the points where `k` more lines of the first list are passed than of the second. -/

namespace Reshape.Lines

/-- The farthest points of a search, by diagonal. -/
structure Reach where
  offset : Nat
  points : Array Int

namespace Reach

/-- The reach of a search that has not started. -/
def blank (steps : Nat) : Reach := ⟨steps + 1, Array.replicate (2 * steps + 4) 0⟩

/-- The farthest point on a diagonal. -/
def get (reach : Reach) (k : Int) : Int :=
  reach.points.getD (k + reach.offset).toNat 0

/-- Note the farthest point on a diagonal. -/
def set (reach : Reach) (k x : Int) : Reach :=
  { reach with points := reach.points.setIfInBounds (k + reach.offset).toNat x }

/-- The first point on a diagonal after `d` differences: one line further than the better one of the
two neighbours. -/
def enter (reach : Reach) (d k : Int) : Int :=
  if k == -d || (k != d && reach.get (k - 1) < reach.get (k + 1)) then reach.get (k + 1)
  else reach.get (k - 1) + 1

end Reach

/-- Two lists of lines, to be compared from the front; for the search from the end they are
reversed. -/
structure Facing where
  old : List String
  new : List String

/-- The number of equal lines from a point on; a point outside the lists has none. -/
def Facing.advance (facing : Facing) (x y : Int) : Int :=
  if 0 ≤ x ∧ 0 ≤ y then commonPrefix (facing.old.drop x.toNat) (facing.new.drop y.toNat) else 0

/-- One diagonal of a search: where it enters the diagonal, and the reach after it. -/
def Facing.walk (facing : Facing) (reach : Reach) (d k : Int) : (Int × Int) × Reach :=
  let x := reach.enter d k
  let y := x - k
  ((x, y), reach.set k (x + facing.advance x y))

/-- The diagonals that `d` differences can reach, the greatest first. -/
def diagonals (d : Nat) : List Int :=
  (List.range (d + 1)).map fun (i : Nat) => (d : Int) - 2 * (i : Int)

/-- The two searches, and where they met if they did. -/
structure Search where
  forward : Reach
  backward : Reach
  met : Option (Int × Int) := none

/-- The sizes of the two lists. -/
structure Sizes where
  old : Int
  new : Int

/-- The difference of the two sizes. -/
def Sizes.delta (sizes : Sizes) : Int := sizes.old - sizes.new

/-- One diagonal of the search from the front. If the sizes differ by an odd number, this search is
the one that finds the other. -/
def Search.stepForward (facing : Facing) (sizes : Sizes) (d : Nat) (search : Search) (k : Int) :
    Search :=
  if search.met.isSome then search
  else
    let (entry, forward) := facing.walk search.forward d k
    let meets := sizes.delta % 2 != 0 && (k - sizes.delta).natAbs < d
      && sizes.old ≤ forward.get k + search.backward.get (sizes.delta - k)
    { search with forward, met := if meets then some entry else none }

/-- One diagonal of the search from the end. If the sizes differ by an even number, this search is
the one that finds the other. -/
def Search.stepBackward (reversed : Facing) (sizes : Sizes) (d : Nat) (search : Search) (k : Int) :
    Search :=
  if search.met.isSome then search
  else
    let (_, backward) := reversed.walk search.backward d k
    let x := backward.get k
    let meets := sizes.delta % 2 == 0 && (k - sizes.delta).natAbs ≤ d
      && sizes.old ≤ x + search.forward.get (sizes.delta - k)
    { search with
      backward
      met := if meets then some (sizes.old - x, sizes.new - (x - k)) else none }

/-- Both searches with `d` differences each. -/
def Search.round (facing reversed : Facing) (sizes : Sizes) (search : Search) (d : Nat) : Search :=
  let search := (diagonals d).foldl (Search.stepForward facing sizes d) search
  (diagonals d).foldl (Search.stepBackward reversed sizes d) search

/-- Where two lists are split. -/
def middle? (old new : List String) : Option (Nat × Nat) :=
  let steps := (old.length + new.length + 1) / 2 + 1
  let facing : Facing := ⟨old, new⟩
  let reversed : Facing := ⟨old.reverse, new.reverse⟩
  let sizes : Sizes := ⟨old.length, new.length⟩
  let start : Search := ⟨.blank steps, .blank steps, none⟩
  let search := (List.range steps).foldl
    (fun search d =>
      if search.met.isSome then search else search.round facing reversed sizes d) start
  search.met.map fun (x, y) => (x.toNat, y.toNat)

end Reshape.Lines
