import Reshape.Mapping.Subtrees
import Reshape.Sequence.Alignment
import Reshape.Tree.Isomorphism

/-! # Recovering pairs among the children of a mapped pair

Once two inner nodes are mapped, their unmapped children are paired in three steps: equal subtrees
in order, subtrees of equal shape in order, and children whose kind occurs once on either side. The
last step goes on below the children it pairs. -/

namespace Reshape.Matching

variable {digest : Digest} (source target : Measured digest)

/-- The children of a source node that have no partner. -/
def freeSources (mapping : Mapping) (s : Nat) : List Nat :=
  (source.tree.children s).filter fun x => !mapping.hasSource x

/-- The children of a target node that have no partner. -/
def freeTargets (mapping : Mapping) (t : Nat) : List Nat :=
  (target.tree.children t).filter fun y => !mapping.hasTarget y

/-- Map the subtrees at a longest alignment of the free children under a relation. -/
def alignChildren (related : Nat → Nat → Bool) (mapping : Mapping) (s t : Nat) :
    Except Violation Mapping :=
  let xs := freeSources source mapping s
  let ys := freeTargets target mapping t
  (Sequence.align related xs ys).foldlM
    (fun mapping (i, j) =>
      mapping.addSubtrees source.tree target.tree (xs.getD i 0) (ys.getD j 0))
    mapping

/-- Whether two subtrees are equal and all their nodes are free. -/
def equalAndFree (mapping : Mapping) (x y : Nat) : Bool :=
  source.isomorphic x target y && mapping.subtreesFree source.tree target.tree x y

/-- Whether two subtrees have one shape that agrees with the pairs their nodes are in. -/
def shapedAndAligned (mapping : Mapping) (x y : Nat) : Bool :=
  source.structurallyIsomorphic x target y
    && mapping.subtreesAligned source.tree target.tree x y

/-- The pairs of children whose kind occurs once on either side, in the order of their kinds. -/
def uniqueKinds (xs ys : List Nat) : List (Nat × Nat) :=
  let kindOf := source.tree.kind
  let pairs := xs.filterMap fun x =>
    match xs.filter (kindOf · == kindOf x), ys.filter (target.tree.kind · == kindOf x) with
    | [_], [y] => some (x, y)
    | _, _ => none
  pairs.mergeSort fun a b => (compare (kindOf a.1) (kindOf b.1)).isLE

/-- Pair what is left among the children of a mapped pair, going down at most `fuel` levels. -/
def recoverWithin : Nat → Mapping → Nat → Nat → Except Violation Mapping
  | 0, mapping, _, _ => .ok mapping
  | fuel + 1, mapping, s, t => do
    let mapping ← alignChildren source target (equalAndFree source target mapping) mapping s t
    let mapping ← alignChildren source target (shapedAndAligned source target mapping) mapping s t
    (uniqueKinds source target (freeSources source mapping s) (freeTargets target mapping t)).foldlM
      (fun mapping (x, y) => do
        let mapping ← (mapping.add x y).toExcept
        recoverWithin fuel mapping x y)
      mapping

/-- Pair what is left among the children of a mapped pair. -/
def recover (mapping : Mapping) (s t : Nat) : Except Violation Mapping :=
  recoverWithin source target (source.height s) mapping s t

end Reshape.Matching
