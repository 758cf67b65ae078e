import Reshape.Project.Basic
import Reshape.Summary

/-! # Differences of two snapshots

Two snapshots are compared by comparing their models, and then file by file, guided by what happened
to the entities. Entities that moved to a file that is not compared with their old one get a diff of
their own. A pair of files whose diff does not work out is left out and reported. -/

namespace Reshape

/-- A pair of files without a diff. -/
structure DiffFailure where
  files : FilePair
  message : String
  deriving Repr

/-- What differs between two snapshots. -/
structure ProjectDiff where
  /-- The diffs of files, in the order of their pairs. -/
  diffs : List (FilePair × TreeDiff) := []
  /-- The diffs of entities that moved between files, in the order of the pairs of files. -/
  moved : List (FilePair × TreeDiff) := []
  failures : List DiffFailure := []
  model : ModelDiff

namespace Project

/-- The trees of two files. -/
def trees (before after : Snapshot) (files : FilePair) : Except Failure (Tree × Tree) :=
  match before.tree? files.source, after.tree? files.target with
  | some source, some target => .ok (source, target)
  | none, _ => .error (.fileNotFound files.source)
  | _, none => .error (.fileNotFound files.target)

/-- What all jobs contribute, pair by pair. -/
def contributions (model : ModelDiff) (before after : Snapshot) (thresholds : Thresholds)
    (pairs : List FilePair) : Except Failure (List Contribution) := do
  let parts ← pairs.mapM fun files => do
    let (source, target) ← trees before after files
    return (jobs model files source target).map (Job.run thresholds source target)
  return parts.flatten

/-- A diff that may have failed. -/
abbrev Attempt := FilePair × Except Violation TreeDiff

/-- The diffs of pairs of files from all contributions, which come in any order. -/
def changedDiffs (model : ModelDiff) (before after : Snapshot) (pairs : List FilePair)
    (parts : List Contribution) : Except Failure (List Attempt) :=
  pairs.mapM fun files => do
    let (source, target) ← trees before after files
    return (files, fileDiff model files source target (parts.filter (·.files == files)))

/-- The diffs of files that did not change. -/
def unchangedDiffs (before after : Snapshot) (pairs : List FilePair) :
    Except Failure (List Attempt) :=
  let files := (commonFiles before after (· == ·)).filter fun files => !pairs.contains files
  files.mapM fun files => do
    let (source, target) ← trees before after files
    return (files, TreeDiff.identity source target)

/-- An entity that moved between files that are not compared with each other. -/
structure Relocation where
  files : FilePair
  source : Nat
  target : Nat
  deriving Repr, BEq

/-- Whether a relocation is listed no later than another one. -/
def Relocation.le (a b : Relocation) : Bool :=
  ((compare a.files b.files).then
    ((compare a.source b.source).then (compare a.target b.target))).isLE

/-- The entities that moved between files that are not compared with each other, in order. -/
def relocations (model : ModelDiff) (pairs : List FilePair) : List Relocation :=
  let found := (movedPairs model).map fun (b, a, _) =>
    Relocation.mk (FilePair.ofRefs b a) b.node a.node
  ((found.filter fun r => !pairs.contains r.files).eraseDups).mergeSort Relocation.le

/-- The diff of an entity and its new place. -/
def relocationDiff (thresholds : Thresholds) (source target : Tree) (r : Relocation) :
    Except Violation TreeDiff := do
  let mapping ← Matching.matchSubtrees source target thresholds r.source r.target
  TreeDiff.ofTask { source, target, mapping, sourceRoot := r.source, targetRoot := r.target }

/-- The diffs of all relocations. -/
def relocationDiffs (model : ModelDiff) (before after : Snapshot) (thresholds : Thresholds)
    (pairs : List FilePair) : Except Failure (List Attempt) :=
  (relocations model pairs).mapM fun r => do
    let (source, target) ← trees before after r.files
    return (r.files, relocationDiff thresholds source target r)

/-- The diffs that worked out. -/
def successes (attempts : List Attempt) : List (FilePair × TreeDiff) :=
  attempts.filterMap fun
    | (files, .ok diff) => some (files, diff)
    | (_, .error _) => none

/-- The diffs that did not work out. -/
def failuresOf (attempts : List Attempt) : List DiffFailure :=
  attempts.filterMap fun
    | (_, .ok _) => none
    | (files, .error violation) => some ⟨files, violation.message⟩

/-- Join a diff to an earlier one of the same files. -/
def joinDiff (diffs : List (FilePair × TreeDiff)) (files : FilePair) (diff : TreeDiff) :
    List (FilePair × TreeDiff) :=
  if diffs.any (·.1 == files) then
    diffs.map fun (f, d) => if f == files then (f, (d.merge diff).1) else (f, d)
  else diffs ++ [(files, diff)]

/-- Diffs in the order of their files. -/
def sortDiffs (diffs : List (FilePair × TreeDiff)) : List (FilePair × TreeDiff) :=
  diffs.mergeSort fun a b => a.1.le b.1

/-- The project diff from all contributions, which come in any order. -/
def assemble (model : ModelDiff) (before after : Snapshot) (thresholds : Thresholds)
    (pairs : List FilePair) (parts : List Contribution) : Except Failure ProjectDiff := do
  let changed ← changedDiffs model before after pairs parts
  let unchanged ← unchangedDiffs before after pairs
  let relocated ← relocationDiffs model before after thresholds pairs
  return {
    diffs := sortDiffs (successes (changed ++ unchanged))
    moved := (successes relocated).foldl (fun diffs (files, diff) => joinDiff diffs files diff) []
    failures := failuresOf (changed ++ unchanged ++ relocated)
    model }

end Project

namespace ProjectDiff

/-- What differs between two snapshots whose models have been compared. -/
def ofModelDiff (model : ModelDiff) (before after : Snapshot) (config : Config) :
    Except Failure ProjectDiff := do
  let thresholds := config.thresholds.clamped
  let pairs := Project.filePairs model before after
  let parts ← Project.contributions model before after thresholds pairs
  Project.assemble model before after thresholds pairs parts

/-- What differs between two snapshots. -/
def between (before after : Snapshot) (config : Config) : Except Failure ProjectDiff :=
  ofModelDiff (ModelDiff.compute config.thresholds before.model after.model) before after config

variable (project : ProjectDiff)

/-- The diff of two files; diffs of moved entities come second. -/
def diff? (source target : Path) : Option TreeDiff :=
  ((project.diffs ++ project.moved).find? fun (files, _) =>
    files == ⟨source, target⟩).map (·.2)

/-- Whether there is nothing to do in any file. -/
def isEmpty : Bool :=
  (project.diffs ++ project.moved).all fun (_, diff) => diff.isEmpty

/-- The sum of the summaries of some diffs of files. -/
def summarize (before after : Snapshot) (diffs : List TreeDiff) : Summary :=
  diffs.foldl (fun total diff =>
    match before.tree? diff.sourcePath, after.tree? diff.targetPath with
    | some source, some target => total.merge (Summary.ofDiff diff source.source target.source)
    | _, _ => total) {}

end ProjectDiff

end Reshape
