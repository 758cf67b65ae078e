import Reshape.Script.Edit
import Reshape.Tree.Basic

/-! # Records of actions

A record describes an action to a reader: its name, the two files, what is at the node, and where.
Records of the members of a group stand below the record of the group. -/

namespace Reshape

/-- The description of one action. -/
structure Record where
  kind : String
  sourcePath : Path
  targetPath : Path
  nodeType : String := ""
  label : String := ""
  sourcePosition : Option Span := none
  targetPosition : Option Span := none
  deriving Repr, Inhabited

namespace Record

/-- A record that names nothing but the two files. -/
def blank (source target : Tree) (kind : String) : Record where
  kind
  sourcePath := source.path
  targetPath := target.path

/-- A record with the kind and the label of a node. -/
def about (record : Record) (tree : Tree) (id : Nat) : Record :=
  { record with nodeType := tree.kind id, label := tree.label id }

/-- The record of an edit. An update shows the new label, a move the one before it. -/
def ofEdit (source target : Tree) (edit : Edit) : Record :=
  let record := blank source target edit.name
  match edit with
  | .insert node _ _ => { record.about target node with targetPosition := some (target.span node) }
  | .delete node => { record.about source node with sourcePosition := some (source.span node) }
  | .update s t =>
    { record.about target t with
      sourcePosition := some (source.span s)
      targetPosition := some (target.span t) }
  | .move s t _ _ =>
    { record.about source s with
      sourcePosition := some (source.span s)
      targetPosition := some (target.span t) }
  | .moveIn node _ _ file _ =>
    { record.about target node with
      sourcePath := file
      targetPosition := some (target.span node) }
  | .moveOut node file _ =>
    { record.about source node with
      targetPath := file
      sourcePosition := some (source.span node) }

/-- Whether a record concerns a file. -/
def touches (record : Record) (path : Path) : Bool :=
  record.sourcePath == path || record.targetPath == path

/-- The line of a record, without indentation. -/
def line (record : Record) : String :=
  let nodeType := if record.nodeType.isEmpty then "" else s!" {record.nodeType}"
  let label := if record.label.isEmpty then "" else " '" ++ record.label ++ "'"
  let start := fun word (span : Option Span) => match span with
    | some span => s!" {word} {span.startLine}:{span.startColumn}"
    | none => ""
  let files :=
    if record.sourcePath == record.targetPath then ""
    else s!" [{record.sourcePath.text} -> {record.targetPath.text}]"
  record.kind ++ nodeType ++ label ++ start "from" record.sourcePosition
    ++ start "to" record.targetPosition ++ files

end Record

namespace Action

mutual

/-- The record of an action. -/
def record (source target : Tree) : Action → Rose Record
  | edit e => .node (Record.ofEdit source target e) []
  | multi members =>
    .node (Record.blank source target (multi members).name) (recordAll source target members)

/-- The records of a list of actions. -/
def recordAll (source target : Tree) : List Action → List (Rose Record)
  | [] => []
  | action :: rest => record source target action :: recordAll source target rest

end

end Action

namespace Record

mutual

/-- The lines of a record and of the records below it, each level two blanks further in. -/
def lines (depth : Nat) : Rose Record → String
  | .node record members =>
    String.ofList (List.replicate (2 * depth) ' ') ++ record.line ++ "\n"
      ++ linesAll (depth + 1) members

/-- The lines of a list of records. -/
def linesAll (depth : Nat) : List (Rose Record) → String
  | [] => ""
  | record :: rest => lines depth record ++ linesAll depth rest

end

mutual

/-- The names of the edits that a record stands for. -/
def editNames : Rose Record → List String
  | .node record [] => [record.kind]
  | .node _ members => editNamesAll members

/-- The names of the edits that a list of records stands for. -/
def editNamesAll : List (Rose Record) → List String
  | [] => []
  | record :: rest => editNames record ++ editNamesAll rest

end

end Record

end Reshape
