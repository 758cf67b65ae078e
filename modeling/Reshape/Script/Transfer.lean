import Reshape.Path
import Reshape.Tree.Traversal

/-! # Subtrees that leave for or arrive from another file

A report says that the subtree at a node went to, or came from, another file. It counts only if no
node of the subtree is mapped, and only if it is not part of a larger subtree that is reported as
well. The same rule serves departures from a source tree and arrivals in a target tree. -/

namespace Reshape

/-- A report that a subtree moved between files. -/
structure Report where
  node : Nat
  /-- The file at the other end. -/
  file : Path
  /-- The number of the refactoring that explains the move. -/
  justification : Option Nat := none
  deriving Repr, Inhabited

namespace Report

/-- Whether a report is taken up no later than another one: by justification, those without one
last. -/
def before (a b : Report) : Bool :=
  match a.justification, b.justification with
  | _, none => true
  | none, some _ => false
  | some i, some j => i ≤ j

end Report

/-- One of the two subtrees of a script, with the reports on it. -/
structure ScriptSide where
  tree : Tree
  root : Nat
  /-- Whether a node is mapped to a node of the other subtree. -/
  mapped : Nat → Bool
  reports : List Report

namespace ScriptSide

variable (side : ScriptSide)

/-- The first report on a node. -/
def report? (id : Nat) : Option Report :=
  side.reports.find? (·.node == id)

/-- Whether no node of the subtree at `id` is mapped. -/
def unmapped (id : Nat) : Bool :=
  (side.tree.preorder id).all fun x => !side.mapped x

/-- Whether the subtree at `id` is reported and unmapped. -/
def transfers (id : Nat) : Bool :=
  (side.report? id).isSome && side.unmapped id

/-- The ancestors of a node that belong to the subtree of the side. -/
def ancestorsWithin (id : Nat) : List Nat :=
  (side.tree.ancestors id).filter (side.tree.isAncestorOrSelf side.root)

/-- Whether a node is part of a subtree that moves between files. -/
def carried (id : Nat) : Bool :=
  (id :: side.ancestorsWithin id).any side.transfers

/-- The reports on the largest subtrees that move between files, in the preorder of the tree. -/
def reported : List Report :=
  let roots := (side.tree.preorder side.root).filter fun id =>
    side.transfers id && !(side.ancestorsWithin id).any side.transfers
  roots.filterMap side.report?

/-- The reports on the largest subtrees that move between files, in the order in which they are
taken up. -/
def transferred : List Report :=
  side.reported.mergeSort Report.before

end ScriptSide

end Reshape
