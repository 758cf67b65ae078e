import Reshape.Content

/-! # Directories

A folder holds files and, possibly empty, directories below it. -/

namespace Reshape

/-- A directory with all that is below it. -/
structure Folder where
  files : Content := {}
  /-- Directories below it; those that hold files need not be listed. -/
  directories : List Path := []

namespace Folder

/-- Whether a directory is at a place. -/
def hasDirectory (folder : Folder) (place : List PathComponent) : Bool :=
  place.isEmpty
    || folder.files.paths.any (fun path =>
      place.isPrefixOf path.components && place.length < path.components.length)
    || folder.directories.any fun path => place.isPrefixOf path.components

/-- The place that components lead to from a place. A `..` leads back from a directory, but not out
of the folder. -/
def walk? (folder : Folder) (place : List PathComponent) :
    List PathComponent → Option (List PathComponent)
  | [] => some place
  | .current :: rest => walk? folder place rest
  | .name text :: rest => walk? folder (place ++ [.name text]) rest
  | .parent :: rest =>
    if place.isEmpty || !folder.hasDirectory place then none else walk? folder place.dropLast rest
  | .root :: _ => none

/-- The place that a path leads to. -/
def place? (folder : Folder) (path : Path) : Option (List PathComponent) :=
  folder.walk? [] path.components

/-- The texts of the files below a directory that a configuration asks for. -/
def texts (folder : Folder) (directory : Path) (config : Config) :
    Except Failure (FileMap String) := do
  match folder.place? directory with
  | some place =>
    if folder.hasDirectory place then
      let filter ← FileFilter.ofConfig config
      return (folder.files.below place).texts filter
    else throw (.fileNotFound directory)
  | none => throw (.fileNotFound directory)

/-- The text of a file. -/
def text? (folder : Folder) (path : Path) : Option String := do
  let place ← folder.place? path
  let bytes ← folder.files.get? (Content.pathOf place)
  String.fromUTF8? bytes

end Folder

end Reshape
