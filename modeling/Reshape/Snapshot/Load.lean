import Reshape.Folder
import Reshape.History.Reference
import Reshape.Snapshot

/-! # Loading snapshots

A snapshot is loaded from a directory or from a history. Of two commits only the files that differ
are loaded. -/

namespace Reshape.Snapshot

/-- The snapshot of a directory. -/
def ofFolder (folder : Folder) (directory : Path) (config : Config) (parse : Parse) :
    Except Failure Snapshot := do
  return ofSources directory.text parse (← folder.texts directory config)

/-- The snapshot of a commit. -/
def ofHistory (history : History) (reference : String) (config : Config) (parse : Parse) :
    Except Failure Snapshot := do
  let filter ← FileFilter.ofConfig config
  return ofSources reference parse (← history.texts filter reference none)

/-- The snapshots of two commits, with the files in which they differ. -/
def pairOfHistory (history : History) (source target : String) (config : Config) (parse : Parse) :
    Except Failure (Snapshot × Snapshot) := do
  let filter ← FileFilter.ofConfig config
  let changed ← history.changedPaths filter source target
  let before ← history.texts filter source (some changed)
  let after ← history.texts filter target (some changed)
  return (ofSources source parse before, ofSources target parse after)

end Reshape.Snapshot
