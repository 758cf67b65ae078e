import Reshape.Archive
import Reshape.Data.Concrete
import Reshape.Data.Entity

/-! # Archives as data

A file is the array of its path and its content, or an object with its path, its source and the
concrete tree of the source. Content is a text, or an object with the bytes in hexadecimal digits. A
commit is an object with its files and its parents; without them it follows the commit before. -/

namespace Reshape

/-- The bytes of pairs of hexadecimal digits. -/
def hexBytes? : List Char → Option (List UInt8)
  | [] => some []
  | [_] => none
  | high :: low :: rest => do
    let digit (c : Char) : Option Nat :=
      "0123456789abcdef".toList.idxOf? c.toLower
    return UInt8.ofNat (16 * (← digit high) + (← digit low)) :: (← hexBytes? rest)

/-- A file of an archive. -/
structure ArchivedFile where
  path : Path
  bytes : ByteArray
  parsed : Option ParsedSource := none

namespace ArchivedFile

/-- The bytes of a content. -/
def bytes? : Json → Option ByteArray
  | .string text => some text.toUTF8
  | json => do
    let digits ← (← json.field? "hex").string?
    return ⟨(← hexBytes? digits.toList).toArray⟩

/-- The concrete tree of a source, if there is one. -/
def parsed? (path : Path) (source : String) (json : Json) : Option ParsedSource := do
  let language ← Language.detect? path
  return { language := language.name, source, tree := ← ConcreteTree.ofJson? json }

/-- A file, read from data. -/
def ofJson? : Json → Option ArchivedFile
  | .array [path, content] => do
    return { path := ← Path.ofJson? path, bytes := ← bytes? content }
  | json => do
    let path ← Path.ofJson? (← json.field? "path")
    let source ← (← json.field? "source").string?
    let parsed := (json.field? "cst").bind (parsed? path source)
    return { path, bytes := source.toUTF8, parsed }

/-- Files, read from data. -/
def listOfJson? (json : Json) : Option (List ArchivedFile) := do
  (← json.array?).mapM ofJson?

/-- A file moved into a directory. -/
def within (directory : String) (file : ArchivedFile) : ArchivedFile :=
  { file with path := ⟨directory ++ "/" ++ file.path.text⟩ }

/-- The contents of files. -/
def content (files : List ArchivedFile) : Content :=
  .ofList (files.map fun file => (file.path, file.bytes))

end ArchivedFile

/-- A commit of an archive: its files, and its parents if they are given. -/
structure ArchivedCommit where
  files : List ArchivedFile
  parents : Option (List Nat)

namespace ArchivedCommit

/-- A commit, read from data. -/
def ofJson? (json : Json) : Option ArchivedCommit := do
  let files ← ArchivedFile.listOfJson? (← json.field? "files")
  let parents ← match json.field? "parents" with
    | none | some .null => some none
    | some list => ((← list.array?).mapM Json.nat?).map some
  return { files, parents }

/-- Commits, read from data. -/
def listOfJson? (json : Json) : Option (List ArchivedCommit) := do
  (← json.array?).mapM ofJson?

/-- The history of some commits. -/
def history (commits : List ArchivedCommit) : History where
  commits := commits.zipIdx.map fun (commit, i) =>
    { files := ArchivedFile.content commit.files
      parents := commit.parents.getD (if i = 0 then [] else [i - 1]) }

end ArchivedCommit

namespace Archive

/-- The archive of files, further directories and repositories. -/
def ofParts (files : List ArchivedFile) (directories : List Path)
    (repositories : List (Path × List ArchivedCommit)) : Archive where
  folder :=
    { files := ArchivedFile.content files, directories := directories ++ repositories.map (·.1) }
  repositories := repositories.map fun (path, commits) => (path, ArchivedCommit.history commits)
  sources :=
    (files ++ repositories.flatMap fun (_, commits) =>
      commits.flatMap (·.files)).filterMap (·.parsed)

/-- A repository, read from data. -/
def repositoryOfJson? (json : Json) : Option (Path × List ArchivedCommit) := do
  return (← Path.ofJson? (← json.field? "path"),
    ← ArchivedCommit.listOfJson? (← json.field? "commits"))

/-- An archive, read from data. What is missing is empty. -/
def ofJson? (json : Json) : Option Archive := do
  let list {α : Type} (name : String) (read : Json → Option α) : Option (List α) :=
    match json.field? name with
    | none => some []
    | some items => do (← items.array?).mapM read
  return ofParts (← list "files" ArchivedFile.ofJson?) (← list "directories" Path.ofJson?)
    (← list "repositories" repositoryOfJson?)

end Archive

end Reshape
