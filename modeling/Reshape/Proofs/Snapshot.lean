import Mathlib
import Reshape.Proofs.FileMap
import Reshape.Proofs.Model.Entities
import Reshape.Snapshot

/-! # Snapshots of sources

A snapshot of sources keeps the trees of the files that can be read, and its model is one of these
trees.  So every entity of the model is declared in a file of the snapshot. -/

namespace Reshape

/-- A parser whose trees carry the path of the file. -/
def Parse.KeepsPaths (parse : Parse) : Prop :=
  ∀ path source tree, parse path source = .ok tree → tree.path = path

theorem Language.parse_keepsPaths (concrete : Path → String → ConcreteTree) :
    (Language.parse concrete).KeepsPaths := by
  intro path source tree h
  rw [Language.parse] at h
  split at h
  · cases h
  · rw [Language.toTree] at h
    split at h
    · cases h
    · obtain rfl := Except.ok.inj h
      rfl

/-- A snapshot whose trees carry the paths they are stored under, each path once, and whose model is
one of these trees. -/
structure Snapshot.Stored (snapshot : Snapshot) : Prop where
  paths : ∀ entry ∈ snapshot.files.entries, entry.2.path = entry.1
  ordered : snapshot.files.Ordered
  model : snapshot.model.Grounded snapshot.files.paths

namespace Snapshot

variable {snapshot : Snapshot} {path : Path} {tree : Tree}

theorem mem_readable {parse : Parse} {source : Path × String} {entry : Path × Tree}
    (h : readable (source.1, parse source.1 source.2) = some entry) :
    entry.1 = source.1 ∧ parse source.1 source.2 = .ok entry.2 := by
  cases hparse : parse source.1 source.2 with
  | ok tree =>
    rw [hparse] at h
    obtain rfl := Option.some.inj h
    exact ⟨rfl, rfl⟩
  | error failure =>
    rw [hparse] at h
    cases h

theorem stored_ofSources {parse : Parse} (hparse : parse.KeepsPaths) (label : String)
    {sources : FileMap String} (hsources : sources.Ordered) :
    (ofSources label parse sources).Stored := by
  have hpaths : ∀ entry ∈ (ofSources label parse sources).files.entries,
      entry.2.path = entry.1 := by
    intro entry hentry
    obtain ⟨_, hmem, hread⟩ := List.mem_filterMap.1 hentry
    obtain ⟨source, -, rfl⟩ := List.mem_map.1 hmem
    obtain ⟨hpath, htree⟩ := mem_readable hread
    rw [hpath]
    exact hparse _ _ _ htree
  refine ⟨hpaths, ?_, ?_⟩
  · refine List.pairwise_filterMap.2 (List.pairwise_map.2 (hsources.imp fun {p q} hlt => ?_))
    intro a ha b hb
    rw [(mem_readable ha).1, (mem_readable hb).1]
    exact hlt
  · have hgrounded := Model.grounded_ofTrees (ofSources label parse sources).files.values
    have heq : (ofSources label parse sources).files.values.map Tree.path =
        (ofSources label parse sources).files.paths := by
      rw [FileMap.values, List.map_map, FileMap.paths]
      exact List.map_congr_left hpaths
    rw [heq] at hgrounded
    exact hgrounded

theorem Stored.path_beq (h : snapshot.Stored) (htree : snapshot.tree? path = some tree) :
    (tree.path == path) = true := by
  obtain ⟨stored, hentry, hpath⟩ := FileMap.exists_of_get? htree
  rw [h.paths _ hentry]
  exact hpath

end Snapshot

end Reshape
