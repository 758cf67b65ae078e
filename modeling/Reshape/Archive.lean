import Reshape.Snapshot.Load

/-! # Archives

An archive is what a command works on: a directory, the repositories in it, and the concrete trees
of sources, as a parser has found them. -/

namespace Reshape

/-- A source in a language, and its concrete tree. -/
structure ParsedSource where
  language : String
  source : String
  tree : ConcreteTree

/-- A directory with repositories and parsed sources. -/
structure Archive where
  folder : Folder := {}
  repositories : List (Path × History) := []
  sources : List ParsedSource := []

namespace Archive

variable (archive : Archive)

/-- The tree of a file, by the concrete tree of its source. -/
def parse : Parse := fun path source =>
  match Language.detect? path with
  | none => .error (.unsupportedLanguage path)
  | some language =>
    match archive.sources.find? fun s => s.language == language.name && s.source == source with
    | some parsed => language.toTree path source parsed.tree
    | none => .error (.unsupportedLanguage path)

/-- The repository at a path. -/
def repository? (path : Path) : Option History := do
  let place ← archive.folder.place? path
  let (_, history) ← archive.repositories.find? fun (other, _) =>
    archive.folder.place? other == some place
  return history

end Archive

end Reshape
