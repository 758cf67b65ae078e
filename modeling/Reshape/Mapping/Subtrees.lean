import Reshape.Mapping.Basic
import Reshape.Tree.Traversal

/-! # Mapping subtrees

Two subtrees of one shape are mapped node by node along their preorders. -/

namespace Reshape.Mapping

variable (mapping : Mapping) (source target : Tree)

/-- The nodes of two subtrees, paired along their preorders. -/
def subtreePairs (s t : Nat) : List (Nat × Nat) :=
  (source.preorder s).zip (target.preorder t)

/-- Pair the nodes of two subtrees along their preorders. -/
def addSubtrees (s t : Nat) : Except Violation Mapping :=
  mapping.addAll (subtreePairs source target s t)

/-- Whether no node of either subtree has a partner. -/
def subtreesFree (s t : Nat) : Bool :=
  (source.preorder s).all (fun x => !mapping.hasSource x)
    && (target.preorder t).all (fun y => !mapping.hasTarget y)

/-- Whether pairing two subtrees along their preorders agrees with every pair their nodes are in. -/
def subtreesAligned (s t : Nat) : Bool :=
  (subtreePairs source target s t).all fun (x, y) =>
    (mapping.target? x).all (· == y) && (mapping.source? y).all (· == x)

end Reshape.Mapping
