import Reshape.Script.Draft
import Reshape.Script.Transfer
import Reshape.Sequence.Alignment

/-! # Making an edit script

The script for two subtrees under a mapping is made on a draft that is changed as edits are noted,
in four phases:

1. subtrees of the source that leave for another file go first, then every other subtree without a
   mapped node is deleted from the leaves up;
2. the nodes of the target are visited in preorder, parents before children: a node nothing stands
   for is inserted, a label that differs is updated, a node under the wrong parent is moved, and the
   children that stand under the right parent in the wrong order are aligned;
3. what is left unmapped has lost its mapped descendants by now and is deleted;
4. subtrees that arrive from another file are put in last.

A target node is *in order* once the node that stands for it has its final place among those already
in order. An inserted or moved node goes right behind the nearest sibling to its left that is in
order. -/

namespace Reshape.Script

/-- What a script is made for: two subtrees, a mapping, and reports of moves between files. -/
structure Task where
  source : Tree
  target : Tree
  mapping : Mapping
  sourceRoot : Nat := 0
  targetRoot : Nat := 0
  movedOut : List Report := []
  movedIn : List Report := []

/-- A script in the making. -/
structure Progress where
  draft : Draft
  /-- The target nodes that are in order. -/
  inOrder : List Nat := []
  edits : List Edit := []

namespace Progress

/-- Note an edit with the draft that it led to. -/
def note (progress : Progress) (draft : Draft) (edit : Edit) : Progress :=
  { progress with draft, edits := progress.edits ++ [edit] }

/-- Mark a target node as in order. -/
def mark (progress : Progress) (t : Nat) : Progress :=
  { progress with inOrder := t :: progress.inOrder }

/-- Take the mark away from some target nodes. -/
def unmark (progress : Progress) (ts : List Nat) : Progress :=
  { progress with inOrder := progress.inOrder.filter fun t => !ts.contains t }

end Progress

namespace Task

variable (task : Task)

/-- The draft that the script starts from. -/
def start : Draft :=
  Draft.start task.source task.target task.mapping task.sourceRoot task.targetRoot

/-- The source subtree with the reports of departures. -/
def sourceSide : ScriptSide :=
  let start := task.start
  { tree := task.source
    root := task.sourceRoot
    mapped := fun s => (start.copies[s]?.bind fun w => start.partners[w]?).isSome
    reports := task.movedOut }

/-- The target subtree with the reports of arrivals. -/
def targetSide : ScriptSide :=
  let start := task.start
  { tree := task.target
    root := task.targetRoot
    mapped := fun t => start.standIns[t]?.isSome
    reports := task.movedIn }

/-- The parent of a target node; the root of the subtree has none. -/
def targetParent (t : Nat) : Option Nat :=
  if t = task.targetRoot then none else task.target.parent t

/-- The target nodes with a given parent. -/
def targetChildren : Option Nat → List Nat
  | none => [task.targetRoot]
  | some parent => task.target.children parent

/-- The siblings to the left of a target node. -/
def leftSiblings (t : Nat) : List Nat :=
  (task.targetChildren (task.targetParent t)).takeWhile (· != t)

/-- The position right behind the nearest left sibling of a target node that is in order. -/
def findPosition (draft : Draft) (inOrder : List Nat) (t : Nat) : Nat :=
  let left := (task.leftSiblings t).reverse.find? inOrder.contains
  match left.bind fun sibling => draft.standIns[sibling]?.bind draft.work.position? with
  | some position => position + 1
  | none => 0

/-- The source node that a work node is a copy of. -/
def originOf (draft : Draft) (w : Nat) : Except Violation Nat :=
  match draft.work.origin w with
  | some s => .ok s
  | none => .error (.noSourceNode w)

/-- The draft with the copy of a source node taken away from its parent. -/
def withoutCopy (draft : Draft) (s : Nat) : Draft :=
  match draft.copies[s]? with
  | some w => { draft with work := draft.work.detach w }
  | none => draft

/-- The edit that takes up a report of a departure. -/
def departure (report : Report) : Edit :=
  .moveOut report.node report.file report.justification

/-- Take away the subtrees that leave for another file. They are taken away in the preorder of the
source, and noted in the order in which they are taken up. -/
def departed (side : ScriptSide) : Progress where
  draft := side.reported.foldl (fun draft report => withoutCopy draft report.node) task.start
  edits := side.transferred.map departure

/-- Take a source node away and note its deletion. -/
def discard (progress : Progress) (s : Nat) : Progress :=
  progress.note (withoutCopy progress.draft s) (.delete s)

/-- The first phase: departures, then deletions. -/
def clear : Progress :=
  let side := task.sourceSide
  let bare := (side.tree.postorder side.root).filter fun s => side.unmapped s && !side.carried s
  bare.foldl discard (task.departed side)

/-- Put a work node at a position below another one. -/
def putUnder (draft : Draft) (z position w : Nat) : Except Violation Draft :=
  match draft.work.attach? z position w with
  | some work => .ok { draft with work }
  | none => .error (.placeOutOfRange position z)

/-- The children of a work node that stand for children of a target node. -/
def placedChildren (draft : Draft) (w t : Nat) : List Nat :=
  (draft.work.children w).filter fun c =>
    (draft.partners[c]?).any fun d => task.targetParent d == some t

/-- The children of a target node that stand below a work node. -/
def settledChildren (draft : Draft) (w t : Nat) : List Nat :=
  (task.target.children t).filter fun d =>
    (draft.standIns[d]?).any fun c => draft.work.parent c == some w

/-- Move the node that stands for a child of a target node to its place among its siblings below
`z`. -/
def moveChild (t z : Nat) (progress : Progress) (child : Nat) : Except Violation Progress := do
  match progress.draft.standIns[child]? with
  | none => return progress
  | some w =>
    let source ← originOf progress.draft w
    let without := { progress.draft with work := progress.draft.work.detach w }
    let position := task.findPosition without progress.inOrder child
    let placed ← putUnder without z position w
    return (progress.note placed (.move source child (some t) position)).mark child

/-- Bring the children of a target node that stand under the right parent into order. A longest
alignment of the two orders stays where it is; the others are moved. -/
def alignChildren (progress : Progress) (w t : Nat) : Except Violation Progress :=
  let progress := progress.unmark (task.target.children t)
  let placed := task.placedChildren progress.draft w t
  let settled := task.settledChildren progress.draft w t
  let related := fun c d => progress.draft.partners[c]? == some d
  let stays := (Sequence.align related placed settled).map fun (_, j) => settled.getD j 0
  (settled.filter fun d => !stays.contains d).foldlM (task.moveChild t w)
    (stays.foldl Progress.mark progress)

/-- Give the node that stands for a target node the label that it has in the target. -/
def relabel (progress : Progress) (t w : Nat) : Except Violation Progress :=
  if progress.draft.work.label w == task.target.label t then .ok progress
  else do
    let source ← originOf progress.draft w
    let work := progress.draft.work.setLabel w (task.target.label t)
    return progress.note { progress.draft with work } (.update source t)

/-- Give the node that stands for a target node the parent that it has in the target. -/
def reparent (progress : Progress) (t w z : Nat) : Except Violation Progress :=
  if progress.draft.work.parent w == some z then .ok progress
  else do
    let source ← originOf progress.draft w
    let position := task.findPosition progress.draft progress.inOrder t
    let without := { progress.draft with work := progress.draft.work.detach w }
    let placed ← putUnder without z position w
    return progress.note placed (.move source t (task.targetParent t) position)

/-- Create a node that stands for a target node. -/
def create (progress : Progress) (t z : Nat) : Except Violation Progress := do
  let position := task.findPosition progress.draft progress.inOrder t
  let w := progress.draft.work.next
  let work := progress.draft.work.push { kind := task.target.kind t, label := task.target.label t }
  let placed ← putUnder { progress.draft with work } z position w
  return progress.note (placed.link w t) (.insert t (task.targetParent t) position)

/-- Let something stand for a target node, below the place of its parent. -/
def bring (progress : Progress) (t z : Nat) : Except Violation Progress :=
  match progress.draft.standIns[t]? with
  | some w => do
    let relabelled ← task.relabel progress t w
    task.reparent relabelled t w z
  | none => task.create progress t z

/-- Bring one target node into place. -/
def visit (progress : Progress) (t : Nat) : Except Violation Progress := do
  match progress.draft.place? (task.targetParent t) with
  | none => .error (.parentWithoutPartner t)
  | some z =>
    let placed ← task.bring progress t z
    match placed.draft.standIns[t]? with
    | some w => task.alignChildren (placed.mark t) w t
    | none => return placed

/-- Delete one work node, unless it stands for a target node. -/
def deleteLeftOver (progress : Progress) (w : Nat) : Except Violation Progress := do
  if progress.draft.partners.contains w then return progress
  else
    let source ← originOf progress.draft w
    if (progress.draft.work.children w).isEmpty then
      return progress.note { progress.draft with work := progress.draft.work.detach w }
        (.delete source)
    else .error (.deletionWithChildren source)

/-- Put in one subtree that arrives from another file. -/
def arrive (progress : Progress) (report : Report) : Except Violation Progress := do
  let parent := task.targetParent report.node
  match progress.draft.place? parent with
  | none => .error (.parentWithoutPartner report.node)
  | some z =>
    let position := ((task.leftSiblings report.node).filter progress.draft.standIns.contains).length
    match progress.draft.graft? task.target report.node z position with
    | none => .error (.arrivalOutOfRange report.node position)
    | some draft =>
      return progress.note draft
        (.moveIn report.node parent position report.file report.justification)

/-- The edits that turn the source subtree into the target subtree. -/
def edits : Except Violation (List Edit) := do
  let targetSide := task.targetSide
  let visited ← ((task.target.preorder task.targetRoot).filter
    fun t => !targetSide.carried t).foldlM task.visit task.clear
  let reduced ← visited.draft.work.postorder.foldlM deleteLeftOver visited
  let complete ← targetSide.transferred.foldlM task.arrive reduced
  return complete.edits

/-- The script that turns the source subtree into the target subtree. -/
def script : Except Violation (List Action) := do
  let edits ← task.edits
  return Action.group (edits.map .edit)

end Task

end Reshape.Script
