import Reshape.Path

/-! # Edits and actions

An edit changes a tree at one place. Deletions, updates, moves and departures name source nodes;
insertions and arrivals name target nodes. The parent of an edit is a target node, or none for the
place above the root.

An action of a script is an edit, or a group of cross-file moves that one refactoring explains.
Grouping joins neighbouring moves with one justification and changes nothing else. -/

namespace Reshape

/-- One change of a tree. -/
inductive Edit where
  /-- A target node appears at a position below a parent. -/
  | insert (node : Nat) (parent : Option Nat) (position : Nat)
  /-- A source node without children disappears. -/
  | delete (node : Nat)
  /-- A source node takes the label of a target node. -/
  | update (source target : Nat)
  /-- The subtree at a source node moves to where its target node stands. -/
  | move (source target : Nat) (parent : Option Nat) (position : Nat)
  /-- The subtree at a target node arrives from another file. -/
  | moveIn (node : Nat) (parent : Option Nat) (position : Nat) (file : Path)
      (justification : Option Nat)
  /-- The subtree at a source node leaves for another file. -/
  | moveOut (node : Nat) (file : Path) (justification : Option Nat)
  deriving Repr, BEq, Inhabited

namespace Edit

/-- The name of an edit in records. -/
def name : Edit → String
  | insert .. => "insert-node"
  | delete .. => "delete-node"
  | update .. => "update-node"
  | move .. => "move-tree"
  | moveIn .. => "move-in"
  | moveOut .. => "move-out"

/-- The number of the refactoring that explains a cross-file move. -/
def justification? : Edit → Option Nat
  | moveIn _ _ _ _ justification | moveOut _ _ justification => justification
  | _ => none

end Edit

/-- One step of a script. -/
inductive Action where
  | edit (edit : Edit)
  | multi (members : List Action)
  deriving Repr, Inhabited

namespace Action

/-- The name of an action in records. -/
def name : Action → String
  | edit e => e.name
  | multi _ => "multi-move"

/-- The number of the refactoring that explains a single cross-file move. -/
def justification? : Action → Option Nat
  | edit e => e.justification?
  | multi _ => none

mutual

/-- The edits of an action, in order. -/
def edits : Action → List Edit
  | edit e => [e]
  | multi members => editsAll members

/-- The edits of a list of actions, in order. -/
def editsAll : List Action → List Edit
  | [] => []
  | action :: rest => edits action ++ editsAll rest

end

/-- What a run of moves becomes: nothing, the one move, or a group. -/
def closeRun : List Action → List Action
  | [] => []
  | [action] => [action]
  | run => [multi run]

/-- Group the rest of a list of actions behind a run of moves with one justification. -/
def groupFrom (run : List Action) : List Action → List Action
  | [] => closeRun run
  | action :: rest =>
    match action.justification? with
    | none => closeRun run ++ action :: groupFrom [] rest
    | some justification =>
      if run.getLast?.bind justification? = some justification then groupFrom (run ++ [action]) rest
      else closeRun run ++ groupFrom [action] rest

/-- Join neighbouring cross-file moves that one refactoring explains. -/
def group (actions : List Action) : List Action :=
  groupFrom [] actions

end Action

end Reshape
