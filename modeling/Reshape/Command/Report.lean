import Reshape.Command.Options
import Reshape.Data.Project
import Reshape.Json.Write
import Reshape.Lines.Render

/-! # Reports

What a command prints about two snapshots. -/

namespace Reshape

/-- Two snapshots and what differs between them. -/
structure ProjectReport where
  before : Snapshot
  after : Snapshot
  project : ProjectDiff

namespace ProjectReport

variable (report : ProjectReport)

/-- A text as a line. -/
def line (text : String) : String := text ++ "\n"

/-- The diffs of files that are not empty, with the trees of the files. -/
def changes : List (TreeDiff × Tree × Tree) :=
  report.project.diffs.filterMap fun (_, diff) =>
    match report.before.tree? diff.sourcePath, report.after.tree? diff.targetPath with
    | some source, some target => if diff.isEmpty then none else some (diff, source, target)
    | _, _ => none

/-- The refactorings, each in a line behind an indentation. -/
def refactorings (indent : String) : String :=
  String.join (report.project.model.refactorings.map fun r => line (indent ++ r.description))

/-- The actions in the files, and a summary. -/
def text (lines : Bool) : String :=
  let change := fun ((diff, source, target) : TreeDiff × Tree × Tree) =>
    line diff.listing
      ++ if lines then
          line (Lines.colorized source.source target.source source.path target.path)
        else ""
  let total := ProjectDiff.summarize report.before report.after (report.changes.map (·.1))
  line (report.before.label ++ ".." ++ report.after.label)
    ++ report.refactorings "  "
    ++ String.join (report.changes.map change)
    ++ String.join (report.project.moved.map fun (_, diff) => line ("moved: " ++ diff.listing))
    ++ line total.text

/-- All of it as data. -/
def toJson : Json :=
  .object
    ([("before", .string report.before.label), ("after", .string report.after.label),
      ("skipped", .ofList SkippedFile.toJson (report.before.skipped ++ report.after.skipped))]
      ++ report.project.fields)

/-- What is printed in a format. -/
def print (display : Display) : String :=
  match display.format with
  | .text => report.text display.lines
  | .refactorings => report.refactorings ""
  | .json => line report.toJson.pretty

/-- A warning for every file that could not be compared. -/
def warnings : List String :=
  report.project.failures.map fun failure =>
    s!"warning: no diff for {failure.files.source.text} -> {failure.files.target.text}: {failure.message}"

end ProjectReport

end Reshape
