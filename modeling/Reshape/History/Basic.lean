import Reshape.Content

/-! # Histories

A history is a list of commits, each with its files and its parents. Commit `i` is called `ci`, and
the last one is the head. -/

namespace Reshape

/-- One version of the files, and the commits that it was made from. -/
structure Commit where
  files : Content := {}
  /-- The numbers of the parents, the first one being the line that the commit continues. -/
  parents : List Nat := []

/-- The commits of a repository. -/
structure History where
  commits : List Commit := []

namespace History

variable (history : History)

/-- The name of a commit. -/
def commitName (commit : Nat) : String := s!"c{commit}"

/-- The files of a commit. -/
def files (commit : Nat) : Content :=
  ((history.commits[commit]?).map (·.files)).getD {}

/-- The parents of a commit. -/
def parents (commit : Nat) : List Nat :=
  ((history.commits[commit]?).map (·.parents)).getD []

/-- The first parent of a commit. -/
def firstParent? (commit : Nat) : Option Nat :=
  (history.parents commit).head?

/-- Some commits with their parents, and so on for `n` generations. -/
def withAncestors : Nat → List Nat → List Nat
  | 0, found => found
  | n + 1, found => withAncestors n (found ++ found.flatMap history.parents).eraseDups

/-- A commit and all commits that it goes back to. -/
def ancestry (commit : Nat) : List Nat :=
  history.withAncestors history.commits.length [commit]

/-- A commit, its first parent, the first parent of that, and so on for `n` generations. -/
def firstParents : Nat → Nat → List Nat
  | 0, commit => [commit]
  | n + 1, commit =>
    commit :: match history.firstParent? commit with
      | some parent => firstParents n parent
      | none => []

/-- The commits of a line that ends with `stop` and starts behind the ancestry of `start`, the
oldest one first, each behind its first parent. A commit without parents is not listed. -/
def range (start stop : Nat) : List (Nat × Nat) :=
  let hidden := history.ancestry start
  let line := (history.firstParents history.commits.length stop).takeWhile (!hidden.contains ·)
  line.reverse.filterMap fun commit =>
    (history.firstParent? commit).map fun parent => (parent, commit)

end History

end Reshape
