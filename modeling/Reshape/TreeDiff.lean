import Reshape.Matching
import Reshape.Script.Build
import Reshape.Script.Record
import Std.Data.TreeSet

/-! # Differences of two trees

A tree diff holds what is known about two versions of a file: which nodes correspond, the script
that turns one version into the other, and the nodes that the script takes away or brings in. Diffs
of parts of one pair of files can be merged. -/

namespace Reshape

/-- What is known about two versions of a file. -/
structure TreeDiff where
  sourcePath : Path
  targetPath : Path
  mapping : Mapping
  actions : List Action
  records : List (Rose Record)
  /-- The source nodes that are deleted or leave. -/
  removed : Std.TreeSet Nat
  /-- The target nodes that are inserted or arrive. -/
  added : Std.TreeSet Nat

namespace TreeDiff

/-- The source nodes that an edit takes away. -/
def removedBy (source : Tree) : Edit → List Nat
  | .delete node => [node]
  | .moveOut node _ _ => source.preorder node
  | _ => []

/-- The target nodes that an edit brings in. -/
def addedBy (target : Tree) : Edit → List Nat
  | .insert node _ _ => [node]
  | .moveIn node _ _ _ _ => target.preorder node
  | _ => []

/-- The diff of a script that is already known. -/
def ofScript (source target : Tree) (mapping : Mapping) (actions : List Action) : TreeDiff :=
  let edits := Action.editsAll actions
  { sourcePath := source.path
    targetPath := target.path
    mapping
    actions
    records := Action.recordAll source target actions
    removed := Std.TreeSet.ofList (edits.flatMap (removedBy source))
    added := Std.TreeSet.ofList (edits.flatMap (addedBy target)) }

/-- The diff of a task: the script is made, and replayed as a check. -/
def ofTask (task : Script.Task) : Except Violation TreeDiff := do
  let actions ← task.script
  Script.replay task.source task.target task.mapping task.sourceRoot task.targetRoot actions
  return ofScript task.source task.target task.mapping actions

/-- The diff of two whole trees under their best mapping. -/
def compute (source target : Tree) (thresholds : Thresholds) : Except Violation TreeDiff := do
  let mapping ← Matching.matchTrees source target thresholds
  ofTask { source, target, mapping }

/-- The diff of a tree and a copy of it: every node has its twin, and there is nothing to do. -/
def identity (source target : Tree) : Except Violation TreeDiff := do
  let mapping ← Mapping.empty.addSubtrees source target source.root target.root
  return ofScript source target mapping []

/-- Whether there is nothing to do. -/
def isEmpty (diff : TreeDiff) : Bool :=
  diff.actions.isEmpty

/-- Join the diff of another part of the same files. Gives the number of pairs that are not taken,
because one of their nodes has a partner. -/
def merge (diff other : TreeDiff) : TreeDiff × Nat :=
  let (mapping, dropped) := diff.mapping.merge other.mapping
  ({ diff with
      mapping
      actions := diff.actions ++ other.actions
      records := diff.records ++ other.records
      removed := diff.removed.insertMany other.removed.toList
      added := diff.added.insertMany other.added.toList }, dropped)

/-- The listing of a diff: the two files, then a line for every action. -/
def listing (diff : TreeDiff) : String :=
  s!"{diff.sourcePath.text} -> {diff.targetPath.text}\n" ++ Record.linesAll 1 diff.records

end TreeDiff

end Reshape
