import Reshape.History.Basic

/-! # References into a history

A reference names a commit, may go back from it along its parents, and may lead to a file or a
directory of the commit: `c3`, `HEAD~2`, `c3^2`, `c3:src/A.java`. -/

namespace Reshape.History

variable (history : History)

/-- What a reference can stand for. -/
inductive Object where
  | commit (number : Nat)
  /-- A directory of a commit. -/
  | tree (files : Content)
  /-- A file of a commit. -/
  | file

/-- The commit of a name, with or without the directory of the names. -/
def named? (name : String) : Option Nat :=
  if name = "HEAD" then
    if history.commits.isEmpty then none else some (history.commits.length - 1)
  else (List.range history.commits.length).find? fun i =>
    ["", "heads/", "refs/heads/"].any fun directory => name = directory ++ commitName i

/-- The ancestor of a commit by first parents. -/
def back? : Nat → Nat → Option Nat
  | 0, commit => some commit
  | n + 1, commit => (history.firstParent? commit).bind (back? n)

/-- The number at the start of a text, or 1 if there is none, and what follows it. -/
def count (chars : List Char) : Nat × List Char :=
  let digits := chars.takeWhile Char.isDigit
  let value := digits.foldl (fun value c => value * 10 + (c.toNat - '0'.toNat)) 0
  (if digits.isEmpty then 1 else value, chars.drop digits.length)

/-- What a place within a commit holds. The place is given by names with slashes between them; only
a directory may have a slash behind it. -/
def objectAt? (commit : Nat) (place : String) : Option Object :=
  let files := history.files commit
  let names := place.splitOn "/"
  let ofNames (names : List String) : List PathComponent := names.map PathComponent.name
  if names = [""] then some (.tree files)
  else if files.paths.any (·.components == ofNames names) then some .file
  else
    let directory := if names.getLast? = some "" then names.dropLast else names
    let below := files.below (ofNames directory)
    if below.entries.isEmpty then none else some (.tree below)

/-- Follow the marks behind the name of a commit. -/
def follow? : Nat → Nat → List Char → Option Object
  | _, commit, [] => some (.commit commit)
  | 0, _, _ => none
  | fuel + 1, commit, mark :: rest =>
    if mark = ':' then history.objectAt? commit (String.ofList rest)
    else
      let (n, rest) := count rest
      if mark = '~' then do follow? fuel (← history.back? n commit) rest
      else if mark = '^' then
        if n = 0 then follow? fuel commit rest
        else do follow? fuel (← (history.parents commit)[n - 1]?) rest
      else none

/-- What a reference stands for. -/
def object? (reference : String) : Option Object := do
  let isName (c : Char) : Bool := c != '~' && c != '^' && c != ':'
  let chars := reference.toList
  let commit ← history.named? (String.ofList (chars.takeWhile isName))
  history.follow? chars.length commit (chars.dropWhile isName)

/-- The files that a reference stands for. -/
def filesOf (reference : String) : Except Failure Content :=
  match history.object? reference with
  | some (.commit number) => .ok (history.files number)
  | some (.tree files) => .ok files
  | some .file => .error (.notATree reference)
  | none => .error (.unknownReference reference)

/-- The commit that a reference stands for. -/
def commitOf (reference : String) : Except Failure Nat :=
  match history.object? reference with
  | some (.commit number) => .ok number
  | _ => .error (.unknownReference reference)

/-- The texts of the files that a reference stands for and a filter accepts; if `only` is given,
just of those among them. -/
def texts (filter : FileFilter) (reference : String) (only : Option (List Path)) :
    Except Failure (FileMap String) := do
  let files ← history.filesOf reference
  let chosen := match only with
    | none => files
    | some paths => ⟨files.entries.filter fun (path, _) => paths.contains path⟩
  return Content.texts chosen filter

/-- Whether two files differ, one of which may be missing. -/
def differ (a b : Option ByteArray) : Bool :=
  a.map ByteArray.toList != b.map ByteArray.toList

/-- The paths that a filter accepts of the files that differ between two references, in order. -/
def changedPaths (filter : FileFilter) (source target : String) : Except Failure (List Path) := do
  let before ← history.filesOf source
  let after ← history.filesOf target
  let all : Content := after.entries.foldl (fun map (path, bytes) => map.insert path bytes) before
  return all.paths.filter fun path =>
    filter.accepts path && differ (before.get? path) (after.get? path)

/-- The commits between two references, each behind its first parent, the oldest one first. -/
def commitRange (source target : String) : Except Failure (List (String × String)) := do
  let start ← history.commitOf source
  let stop ← history.commitOf target
  return (history.range start stop).map fun (parent, commit) =>
    (commitName parent, commitName commit)

end Reshape.History
