import Reshape.Tree.Measure

/-! # Equal subtrees

Two subtrees are isomorphic when they agree in kinds, labels and shape, and structurally isomorphic
when they agree in kinds and shape. Subtrees whose digests or sizes differ are told apart at once;
the others are compared node by node, so a collision of digests does no harm. -/

namespace Reshape

/-- Whether two nodes agree in kind and number of children, and in label if labels count. -/
def Tree.sameNode (withLabels : Bool) (source target : Tree) (a b : Nat) : Bool :=
  source.kind a == target.kind b
    && (!withLabels || source.label a == target.label b)
    && (source.children a).length == (target.children b).length

/-- Whether the subtrees at all open pairs of nodes agree, in at most `fuel` steps. -/
def Tree.sameFrom (withLabels : Bool) (source target : Tree) : Nat → List (Nat × Nat) → Bool
  | _, [] => true
  | 0, _ => false
  | fuel + 1, (a, b) :: rest =>
    sameNode withLabels source target a b
      && sameFrom withLabels source target fuel
        ((source.children a).zip (target.children b) ++ rest)

/-- Whether the subtrees at two nodes agree. -/
def Tree.sameSubtree (withLabels : Bool) (source : Tree) (a : Nat) (target : Tree)
    (b : Nat) : Bool :=
  sameFrom withLabels source target (source.size + 1) [(a, b)]

namespace Measured

variable {digest : Digest}

/-- Whether two subtrees agree in kinds, labels and shape. -/
def isomorphic (source : Measured digest) (a : Nat) (target : Measured digest) (b : Nat) : Bool :=
  source.digests.getD a 0 == target.digests.getD b 0
    && source.size a == target.size b
    && Tree.sameSubtree true source.tree a target.tree b

/-- Whether two subtrees agree in kinds and shape. -/
def structurallyIsomorphic (source : Measured digest) (a : Nat) (target : Measured digest)
    (b : Nat) : Bool :=
  source.shapeDigests.getD a 0 == target.shapeDigests.getD b 0
    && source.size a == target.size b
    && Tree.sameSubtree false source.tree a target.tree b

end Measured

end Reshape
