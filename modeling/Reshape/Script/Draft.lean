import Reshape.Mapping.Basic
import Reshape.Script.Edit
import Reshape.Script.WorkTree

/-! # Drafts

A draft is a work tree on its way from a source subtree to a target subtree. It knows the copy of
every source node, and which work node stands for a target node: at first the copies of the source
nodes that the mapping pairs, later also the nodes that edits create.

`apply` performs one edit, `perform` an action: the members of a group are performed one after the
other, whatever they are. A script fits two subtrees under a mapping if its actions can be performed
on a copy of the source subtree and the result has the kinds, labels and shape of the target
subtree. -/

namespace Reshape

/-- A tree on its way from a source subtree to a target subtree. -/
structure Draft where
  work : WorkTree
  /-- The work node that copies a source node. -/
  copies : Std.TreeMap Nat Nat
  /-- The work node that stands for a target node. -/
  standIns : Std.TreeMap Nat Nat := ∅
  /-- The target node that a work node stands for. -/
  partners : Std.TreeMap Nat Nat := ∅

namespace Draft

/-- Let a work node stand for a target node. -/
def link (draft : Draft) (w t : Nat) : Draft :=
  { draft with standIns := draft.standIns.insert t w, partners := draft.partners.insert w t }

/-- Link the copy of a source node to its target node, if both are part of the two subtrees. -/
def linkPair (target : Tree) (targetRoot : Nat) (draft : Draft) (pair : Nat × Nat) : Draft :=
  match draft.copies[pair.1]? with
  | some w => if target.isAncestorOrSelf targetRoot pair.2 then draft.link w pair.2 else draft
  | none => draft

/-- The copy of a source subtree, with the pairs of a mapping linked. -/
def start (source target : Tree) (mapping : Mapping) (sourceRoot targetRoot : Nat) : Draft :=
  let copied := WorkTree.blank.copySubtree source sourceRoot true
  let numbers := WorkTree.copyNumbers source sourceRoot WorkTree.blank.next
  let work := (copied.attach? WorkTree.top 0 WorkTree.blank.next).getD copied
  mapping.pairs.foldl (linkPair target targetRoot)
    { work, copies := Std.TreeMap.ofList numbers }

/-- The work node at which a target node stands; no target node is the top. -/
def place? (draft : Draft) : Option Nat → Option Nat
  | none => some WorkTree.top
  | some t => draft.standIns[t]?

/-- The work node at which a parent stands. -/
def place (draft : Draft) (parent : Option Nat) : Except Violation Nat :=
  match draft.place? parent with
  | some w => .ok w
  | none => .error (.noStandIn (parent.getD 0))

/-- The copy of a source node. -/
def copy (draft : Draft) (source : Nat) : Except Violation Nat :=
  match draft.copies[source]? with
  | some w => .ok w
  | none => .error (.unknownSource source)

/-- Put a work node below a parent. -/
def attach (draft : Draft) (parent position w : Nat) : Except Violation Draft :=
  match draft.work.attach? parent position w with
  | some work => .ok { draft with work }
  | none => .error (.positionOutOfRange position)

/-- Let copies of the nodes of a target subtree stand for them, at a position below a work node. -/
def graft? (target : Tree) (draft : Draft) (node parent position : Nat) : Option Draft :=
  let w := draft.work.next
  ((draft.work.copySubtree target node false).attach? parent position w).map fun work =>
    (WorkTree.copyNumbers target node w).foldl (fun draft (t, w) => draft.link w t)
      { draft with work }

/-- Perform one edit on the way to a target tree. -/
def apply (target : Tree) (draft : Draft) : Edit → Except Violation Draft
  | .insert node parent position => do
    let p ← draft.place parent
    let w := draft.work.next
    let pushed := draft.work.push { kind := target.kind node, label := target.label node }
    let attached ← { draft with work := pushed }.attach p position w
    return attached.link w node
  | .delete node => do
    let w ← draft.copy node
    if (draft.work.children w).isEmpty then return { draft with work := draft.work.detach w }
    else .error (.deleteOfNonLeaf node)
  | .update source node => do
    let w ← draft.copy source
    return { draft with work := draft.work.setLabel w (target.label node) }
  | .move source _ parent position => do
    let w ← draft.copy source
    let p ← draft.place parent
    { draft with work := draft.work.detach w }.attach p position w
  | .moveIn node parent position _ _ => do
    let p ← draft.place parent
    match draft.graft? target node p position with
    | none => .error (.moveInOutOfRange node position)
    | some grafted => return grafted
  | .moveOut node _ _ => do
    let w ← draft.copy node
    return { draft with work := draft.work.detach w }

/-- Perform edits in order. -/
def applyAll (target : Tree) (draft : Draft) (edits : List Edit) : Except Violation Draft :=
  edits.foldlM (apply target) draft

mutual

/-- Perform an action: an edit, or the members of a group in order. -/
def perform (target : Tree) (draft : Draft) : Action → Except Violation Draft
  | .edit edit => draft.apply target edit
  | .multi members => performAll target draft members

/-- Perform actions in order. -/
def performAll (target : Tree) (draft : Draft) : List Action → Except Violation Draft
  | [] => .ok draft
  | action :: rest => do
    let next ← perform target draft action
    performAll target next rest

end

end Draft

namespace Script

/-- Whether a draft holds one tree, equal to a target subtree. -/
def reaches (target : Tree) (targetRoot : Nat) (draft : Draft) : Bool :=
  match draft.work.children WorkTree.top with
  | [w] => draft.work.agrees target (target.subtree targetRoot) w
  | _ => false

/-- Perform the actions of a script and check that the target subtree comes out. -/
def replay (source target : Tree) (mapping : Mapping) (sourceRoot targetRoot : Nat)
    (actions : List Action) : Except Violation Unit := do
  let start := Draft.start source target mapping sourceRoot targetRoot
  let draft ← start.performAll target actions
  if reaches target targetRoot draft then return () else .error .replayDiffers

end Script

end Reshape
