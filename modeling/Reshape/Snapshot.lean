import Reshape.FileMap
import Reshape.Language
import Reshape.Model.Build

/-! # Snapshots

A snapshot is one version of a set of files: the trees of the files that could be read, the model of
their entities, and the files that were skipped with the reasons. -/

namespace Reshape

/-- What makes a tree of the path and the source of a file. -/
abbrev Parse := Path → String → Except Failure Tree

/-- Reading files through a parser that yields a concrete tree for every source in a supported
language. -/
def Language.parse (concrete : Path → String → ConcreteTree) : Parse := fun path source =>
  match Language.detect? path with
  | none => .error (.unsupportedLanguage path)
  | some language => language.toTree path source (concrete path source)

/-- A file that is not part of a snapshot. -/
structure SkippedFile where
  path : Path
  reason : String
  deriving Repr

/-- One version of a set of files. -/
structure Snapshot where
  label : String := ""
  files : FileMap Tree := {}
  skipped : List SkippedFile := []
  model : Model := {}

namespace Snapshot

/-- The tree of a file, if it could be read. -/
def readable (parsed : Path × Except Failure Tree) : Option (Path × Tree) :=
  match parsed with
  | (path, .ok tree) => some (path, tree)
  | (_, .error _) => none

/-- The reason for skipping a file, if it could not be read. -/
def unreadable (parsed : Path × Except Failure Tree) : Option SkippedFile :=
  match parsed with
  | (_, .ok _) => none
  | (path, .error failure) => some ⟨path, failure.message⟩

/-- The snapshot of sources. Files that cannot be read are skipped. -/
def ofSources (label : String) (parse : Parse) (sources : FileMap String) : Snapshot :=
  let parsed := sources.entries.map fun (path, source) => (path, parse path source)
  let files : FileMap Tree := ⟨parsed.filterMap readable⟩
  { label
    files
    skipped := parsed.filterMap unreadable
    model := Model.ofTrees files.values }

/-- The tree of a file. -/
def tree? (snapshot : Snapshot) (path : Path) : Option Tree :=
  snapshot.files.get? path

end Snapshot

end Reshape
