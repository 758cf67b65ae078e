import Reshape.Lines.Hunk
import Reshape.TreeDiff

/-! # Summaries

A summary counts the changed files, the inserted and deleted lines, and the edits of every kind. -/

namespace Reshape

/-- Counts of changes. -/
structure Summary where
  filesChanged : Nat := 0
  insertions : Nat := 0
  deletions : Nat := 0
  /-- The number of edits of every kind that occurs. -/
  edits : Std.TreeMap String Nat := ∅

namespace Summary

/-- Count `n` more edits of a kind. -/
def count (edits : Std.TreeMap String Nat) (kind : String) (n : Nat) : Std.TreeMap String Nat :=
  edits.insert kind (edits.getD kind 0 + n)

/-- The summary of one pair of files. -/
def ofDiff (diff : TreeDiff) (older newer : String) : Summary :=
  let (deletions, insertions) := Lines.changeCounts (Lines.split older) (Lines.split newer)
  let changed := 0 < insertions || 0 < deletions || !diff.isEmpty
  { filesChanged := if changed then 1 else 0
    insertions
    deletions
    edits := (Record.editNamesAll diff.records).foldl (fun edits kind => count edits kind 1) ∅ }

/-- The sum of two summaries. -/
def merge (summary other : Summary) : Summary where
  filesChanged := summary.filesChanged + other.filesChanged
  insertions := summary.insertions + other.insertions
  deletions := summary.deletions + other.deletions
  edits := other.edits.toList.foldl (fun edits (kind, n) => count edits kind n) summary.edits

/-- The line that tells a summary. -/
def text (summary : Summary) : String :=
  let counts := summary.edits.toList.map fun (kind, n) => s!"{n} {kind}"
  s!"{summary.filesChanged} file(s) changed, {summary.insertions} insertions(+), {summary.deletions} deletions(-)"
    ++ if counts.isEmpty then "" else "; " ++ ", ".intercalate counts

end Summary

end Reshape
