import Reshape.Data.Refactoring
import Reshape.Project

/-! # Projects as data

The JSON form of what differs between two snapshots. -/

namespace Reshape

mutual

/-- The record of an action as data. Fields that say nothing are left out. -/
def Record.toJson (span : Span → Json) : Rose Record → Json
  | .node record members =>
    let word (name text : String) : List (String × Json) :=
      if text.isEmpty then [] else [(name, .string text)]
    let place (name : String) (position : Option Span) : List (String × Json) :=
      (position.map fun p => (name, span p)).toList
    .object
      ([("kind", .string record.kind), ("src_path", record.sourcePath.toJson),
        ("dst_path", record.targetPath.toJson)]
        ++ word "node_type" record.nodeType ++ word "label" record.label
        ++ place "src_position" record.sourcePosition
        ++ place "dst_position" record.targetPosition
        ++ if members.isEmpty then [] else [("members", .array (Record.toJsonAll span members))])

/-- The records of some actions as data. -/
def Record.toJsonAll (span : Span → Json) : List (Rose Record) → List Json
  | [] => []
  | record :: records => Record.toJson span record :: Record.toJsonAll span records

end

namespace TreeDiff

/-- A diff as data: its files and the records of its actions. -/
def toJson (diff : TreeDiff) : Json :=
  .object
    [("src_path", diff.sourcePath.toJson), ("dst_path", diff.targetPath.toJson),
     ("actions", .array (Record.toJsonAll Span.toJson diff.records))]

end TreeDiff

namespace ModelDiff

/-- What differs between two models, as data. -/
def toJson (diff : ModelDiff) : Json :=
  let pair (p : EntityPair) : Json :=
    .object [("before", p.before.toJson), ("after", p.after.toJson), ("score", .ofFloat p.score)]
  .object
    [("refactorings", .ofList (fun r => .object (r.fields .standard)) diff.refactorings),
     ("matched", .ofList pair diff.matched),
     ("added", .ofList EntityRef.toJson diff.added),
     ("removed", .ofList EntityRef.toJson diff.removed)]

end ModelDiff

namespace SkippedFile

/-- A skipped file as data. -/
def toJson (file : SkippedFile) : Json :=
  .object [("path", file.path.toJson), ("reason", .string file.reason)]

end SkippedFile

namespace ProjectDiff

/-- The fields of what differs between two snapshots. -/
def fields (project : ProjectDiff) : List (String × Json) :=
  let diffs (all : List (FilePair × TreeDiff)) : Json := .ofList (fun d => d.2.toJson) all
  let failure (f : DiffFailure) : Json :=
    .object [("src_path", f.files.source.toJson), ("dst_path", f.files.target.toJson),
      ("message", .string f.message)]
  [("diffs", diffs project.diffs), ("moved", diffs project.moved),
   ("failures", .ofList failure project.failures), ("model", project.model.toJson)]

end ProjectDiff

end Reshape
