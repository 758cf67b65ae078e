import Reshape.Config
import Reshape.ModelDiff
import Reshape.Snapshot
import Reshape.TreeDiff

/-! # Pairs of files and what they contribute

The mapping of a pair of files is put together from parts: paired operations, parts of operations
that were extracted, inlined, merged or split, paired classes, and the files as a whole. More
specific parts come first; a later part adds only what fits. -/

namespace Reshape

/-- A file of the version before and one of the version after. -/
structure FilePair where
  source : Path
  target : Path
  deriving Repr, Inhabited

namespace FilePair

instance : BEq FilePair where
  beq a b := a.source == b.source && a.target == b.target

instance : Ord FilePair where
  compare a b := (compare a.source b.source).then (compare a.target b.target)

/-- Whether a pair is listed no later than another one. -/
def le (a b : FilePair) : Bool :=
  (compare a b).isLE

/-- Pairs in order, each once. -/
def sorted (pairs : List FilePair) : List FilePair :=
  pairs.eraseDups.mergeSort le

/-- The files that two entities are declared in. -/
def ofRefs (before after : EntityRef) : FilePair := ⟨before.path, after.path⟩

end FilePair

namespace Project

/-- The files of two snapshots whose sources are compared with a relation. -/
def commonFiles (before after : Snapshot) (related : String → String → Bool) : List FilePair :=
  before.files.entries.filterMap fun (path, tree) =>
    match after.tree? path with
    | some other => if related tree.source other.source then some ⟨path, path⟩ else none
    | none => none

/-- The files of paired classes whose old file is gone and whose new file is new. -/
def renamedFiles (model : ModelDiff) (before after : Snapshot) : List FilePair :=
  (model.matched.filter fun pair =>
    pair.before.id.kind == .type && pair.before.path != pair.after.path
      && !after.files.contains pair.before.path && !before.files.contains pair.after.path).map
    fun pair => FilePair.ofRefs pair.before pair.after

/-- The pairs of files that have to be compared: changed files, and files that were renamed. -/
def filePairs (model : ModelDiff) (before after : Snapshot) : List FilePair :=
  FilePair.sorted (commonFiles before after (· != ·) ++ renamedFiles model before after)

/-- A part of a pair of files that is to be matched. -/
structure Job where
  files : FilePair
  /-- How specific the part is; the most specific parts have tier zero. -/
  tier : Nat
  /-- The place of the part within its tier. -/
  place : Nat
  sourceRoot : Nat
  targetRoot : Nat
  deriving Repr, Inhabited

/-- The tier of paired entities. Attributes do not contribute. -/
def tier? : EntityKind → Option Nat
  | .operation => some 0
  | .type => some 2
  | .attribute => none

/-- The jobs of the paired entities of two files. -/
def entityJobs (model : ModelDiff) (files : FilePair) : List Job :=
  model.matched.zipIdx.filterMap fun (pair, place) =>
    if FilePair.ofRefs pair.before pair.after == files then
      (tier? pair.before.id.kind).map fun tier =>
        { files, tier, place, sourceRoot := pair.before.node, targetRoot := pair.after.node }
    else none

/-- The jobs of the operations of two files that exchanged statements. -/
def exchangeJobs (model : ModelDiff) (files : FilePair) : List Job :=
  let exchanges := model.refactorings.filter fun r => r.group.relatesOthers
  let pairs := (exchanges.flatMap fun r => r.fact.entityPairs).filter fun (b, a) =>
    FilePair.ofRefs b a == files
  pairs.zipIdx.map fun ((b, a), place) =>
    { files, tier := 1, place, sourceRoot := b.node, targetRoot := a.node }

/-- All jobs of two files; the last one matches them as a whole. -/
def jobs (model : ModelDiff) (files : FilePair) (source target : Tree) : List Job :=
  entityJobs model files ++ exchangeJobs model files
    ++ [{ files, tier := 3, place := 0, sourceRoot := source.root, targetRoot := target.root }]

/-- What a job found out. -/
structure Contribution where
  files : FilePair
  tier : Nat
  place : Nat
  mapping : Except Violation Mapping

/-- Match the part of a job. -/
def Job.run (thresholds : Thresholds) (source target : Tree) (job : Job) : Contribution where
  files := job.files
  tier := job.tier
  place := job.place
  mapping := Matching.matchSubtrees source target thresholds job.sourceRoot job.targetRoot

/-- Whether a contribution is taken up no later than another one. -/
def Contribution.comesFirst (a b : Contribution) : Bool :=
  a.tier < b.tier || (a.tier == b.tier && a.place ≤ b.place)

/-- The mapping put together from contributions that come in any order. -/
def combine (parts : List Contribution) : Except Violation Mapping :=
  (parts.mergeSort Contribution.comesFirst).foldlM
    (fun mapping part => do return (mapping.merge (← part.mapping)).1) Mapping.empty

/-- The pairs of entities in different files, with the number of the refactoring that relates
them. -/
def movedPairs (model : ModelDiff) : List (EntityRef × EntityRef × Nat) :=
  model.refactorings.zipIdx.flatMap fun (r, number) =>
    (r.fact.entityPairs.filter fun (b, a) => b.path != a.path).map fun (b, a) => (b, a, number)

/-- The entities that left a file. -/
def departures (model : ModelDiff) (file : Path) : List Report :=
  (movedPairs model).filterMap fun (b, a, number) =>
    if b.path == file then some ⟨b.node, a.path, some number⟩ else none

/-- The entities that came to a file. -/
def arrivals (model : ModelDiff) (file : Path) : List Report :=
  (movedPairs model).filterMap fun (b, a, number) =>
    if a.path == file then some ⟨a.node, b.path, some number⟩ else none

/-- The diff of two files from the contributions to it. -/
def fileDiff (model : ModelDiff) (files : FilePair) (source target : Tree)
    (parts : List Contribution) : Except Violation TreeDiff := do
  let mapping ← combine parts
  TreeDiff.ofTask
    { source, target, mapping
      sourceRoot := source.root
      targetRoot := target.root
      movedOut := departures model files.source
      movedIn := arrivals model files.target }

end Project

end Reshape
