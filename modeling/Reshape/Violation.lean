/-! # Violated invariants

What can go wrong while two trees are matched or an edit script is applied. None of it is the fault
of the files compared: a violation means that a mapping or a script does not fit its trees. -/

namespace Reshape

/-- A mapping or a script that does not fit its trees. -/
inductive Violation where
  /-- A pair is added of which a node has another partner already; both partners are shown. -/
  | alreadyMapped (source target : Nat) (targetOfSource sourceOfTarget : Option Nat)
  /-- The parent of a target node has no place in the work tree. -/
  | parentWithoutPartner (target : Nat)
  /-- A node of the work tree is no copy of a source node. -/
  | noSourceNode (work : Nat)
  /-- A target node is named as parent, and nothing stands for it. -/
  | noStandIn (target : Nat)
  /-- An edit names a node that is not part of the source subtree. -/
  | unknownSource (source : Nat)
  /-- An edit puts a node behind the end of a list of children. -/
  | positionOutOfRange (position : Nat)
  /-- An edit deletes a node that has children. -/
  | deleteOfNonLeaf (source : Nat)
  /-- A subtree is moved in behind the end of a list of children. -/
  | moveInOutOfRange (target position : Nat)
  /-- The edited tree is not the target tree. -/
  | replayDiffers
  /-- A script in the making puts a node behind the end of the children of a work node. -/
  | placeOutOfRange (position work : Nat)
  /-- A script in the making deletes a node that has children. -/
  | deletionWithChildren (source : Nat)
  /-- A script in the making cannot let a subtree arrive at a position. -/
  | arrivalOutOfRange (target position : Nat)
  deriving Repr, DecidableEq

namespace Violation

/-- A node as messages show it. -/
def nodeText (id : Nat) : String := s!"NodeId({id})"

/-- A node that may be missing, as messages show it. -/
def nodeText? : Option Nat → String
  | none => "None"
  | some id => s!"Some({nodeText id})"

/-- The message of a violation. -/
def message : Violation → String
  | alreadyMapped s t ts st =>
    s!"cannot map {nodeText s} to {nodeText t}: already mapped ({nodeText? ts}, {nodeText? st})"
  | parentWithoutPartner t => s!"parent of {nodeText t} has no partner"
  | noSourceNode w => s!"work node {w} has no source node"
  | noStandIn t => s!"no node stands for destination {nodeText t}"
  | unknownSource s => s!"unknown source node {nodeText s}"
  | positionOutOfRange p => s!"position {p} out of range"
  | deleteOfNonLeaf s => s!"delete of non-leaf {nodeText s}"
  | moveInOutOfRange t p => s!"move-in of {nodeText t} at {p} out of range"
  | replayDiffers => "replayed tree differs from the destination"
  | placeOutOfRange p w => s!"position {p} out of range under work node {w}"
  | deletionWithChildren s => s!"deleting {nodeText s} which still has children"
  | arrivalOutOfRange t p => s!"cannot move {nodeText t} in at position {p}"

end Violation

end Reshape
