import Reshape.Lines.Hunk
import Reshape.Path

/-! # Comparisons of lines as text

The unified form shows hunks with three equal lines around the changes, each under a header with the
lines it covers. The colored form shows the same lines without hunk headers. -/

namespace Reshape.Lines

/-- The number of equal lines shown around changes. -/
def context : Nat := 3

/-- Lines `start` up to `stop`, counted from one. An empty range stands behind the line before
it. -/
def rangeText (start stop : Nat) : String :=
  let count := stop - start
  if count = 1 then s!"{start + 1}"
  else if count = 0 then s!"{start},0"
  else s!"{start + 1},{count}"

/-- The header of a hunk. -/
def hunkHeader (first last : Op) : String :=
  s!"@@ -{rangeText first.oldStart last.oldStop} +{rangeText first.newStart last.newStop} @@\n"

/-- The mark in front of a line. -/
def Tag.mark : Tag → String
  | .delete => "-"
  | .insert => "+"
  | _ => " "

/-- A line of a hunk. A line without an end is followed by a note. -/
def Change.text (change : Change) : String :=
  let note := if isTerminated change.line then "" else "\n\\ No newline at end of file\n"
  change.tag.mark ++ change.line ++ note

/-- A hunk with its header. -/
def hunkText (old new : Array String) (hunk : List Op) : String :=
  match hunk, hunk.getLast? with
  | first :: _, some last =>
    let changes := hunk.flatMap (Op.changes old new)
    if changes.isEmpty then "" else hunkHeader first last ++ String.join (changes.map Change.text)
  | _, _ => ""

/-- The unified form of the comparison of two texts; nothing if they are equal. -/
def unified (older newer : String) (sourcePath targetPath : Path) : String :=
  let old := split older
  let new := split newer
  let groups := hunks context (diffLines old new)
  if groups.isEmpty then ""
  else
    s!"--- a/{sourcePath.text}\n+++ b/{targetPath.text}\n"
      ++ String.join (groups.map (hunkText old new))

/-- A text in a color, given by its code. -/
def colored (code text : String) : String :=
  "\x1b[" ++ code ++ "m" ++ text ++ "\x1b[0m"

/-- A line in the color of its tag. -/
def Change.coloredText (change : Change) : String :=
  let text := change.tag.mark ++ change.line
  match change.tag with
  | .delete => colored "31" text
  | .insert => colored "32" text
  | _ => text

/-- The colored form of the comparison of two texts. -/
def colorized (older newer : String) (sourcePath targetPath : Path) : String :=
  let old := split older
  let new := split newer
  let changes := (hunks context (diffLines old new)).flatten.flatMap (Op.changes old new)
  colored "36" s!"--- a/{sourcePath.text}" ++ "\n" ++
    colored "36" s!"+++ b/{targetPath.text}" ++ "\n"
    ++ String.join (changes.map Change.coloredText)

end Reshape.Lines
