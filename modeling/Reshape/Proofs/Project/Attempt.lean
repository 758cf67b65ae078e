import Mathlib
import Reshape.Project
import Reshape.Proofs.Matching.WellFormed
import Reshape.Proofs.Project.Files
import Reshape.Proofs.Script.RoundTrip

/-! # Diffs that always work out

A diff fails if no script can be made or if the script does not lead to the target.  Neither happens
for a one-to-one mapping of nodes of equal kinds.  Matching gives such a mapping, and merging
several of them gives one again. -/

namespace Reshape

namespace Mapping

/-- A one-to-one mapping of nodes of equal kinds. -/
structure Suits (source target : Tree) (mapping : Mapping) : Prop where
  oneToOne : mapping.OneToOne
  kinds : ∀ s t, mapping.target? s = some t → source.kind s = target.kind t

variable {source target : Tree} {mapping other : Mapping}

theorem suits_empty : empty.Suits source target :=
  ⟨oneToOne_empty, fun _ _ hst => nomatch hst⟩

theorem Suits.merge (h : mapping.Suits source target) (hother : other.Suits source target) :
    (mapping.merge other).1.Suits source target := by
  obtain ⟨hone, hpairs⟩ := h.oneToOne.merge other
  exact ⟨hone, fun s t hst => (hpairs s t hst).elim (h.kinds s t) (hother.kinds s t)⟩

end Mapping

theorem Matching.exists_suited (source target : Tree) (thresholds : Thresholds) (s t : Nat) :
    ∃ mapping, matchSubtrees source target thresholds s t = .ok mapping ∧
      mapping.Suits source target := by
  obtain ⟨mapping, hmapping, hgrow⟩ := exists_matchMeasured (source.measured Digest.standard)
    (target.measured Digest.standard) thresholds s t
  refine ⟨mapping, hmapping, hgrow.oneToOne, fun x y hxy => ?_⟩
  rcases hgrow.gains x y hxy with hempty | hpair
  · cases hempty
  · exact hpair.2.2

namespace TreeDiff

variable {source target : Tree}

/-- A diff that names the files of two trees. -/
def IsBetween (source target : Tree) (diff : TreeDiff) : Prop :=
  diff.sourcePath = source.path ∧ diff.targetPath = target.path

/-- A task with a fitting mapping has a diff: its script leads to the target. -/
theorem exists_ofTask (task : Script.Task) (h : task.mapping.Suits task.source task.target) :
    ∃ diff, ofTask task = .ok diff ∧ diff.IsBetween task.source task.target := by
  obtain ⟨edits, draft, hscript, hmade⟩ := Script.Task.exists_script h.oneToOne
  have hreaches : Script.reaches task.target task.targetRoot draft = true :=
    (hmade.reaches_iff h.oneToOne).2 fun s t hpair => h.kinds s t hpair.1
  refine ⟨ofScript task.source task.target task.mapping (Action.group (edits.map .edit)), ?_,
    rfl, rfl⟩
  rw [ofTask, hscript, ok_bind, hmade.replay_eq, if_pos hreaches, ok_bind]
  rfl

/-- The nodes of two trees can always be paired along their preorders. -/
theorem exists_identity (source target : Tree) :
    ∃ diff, identity source target = .ok diff ∧ diff.IsBetween source target := by
  obtain ⟨hfst, hsnd⟩ := Mapping.nodup_subtreePairs source target source.root target.root
  obtain ⟨mapping, hmapping, -⟩ := Mapping.oneToOne_empty.addAll hfst hsnd
    fun _ _ => Mapping.fits_of_free rfl rfl
  refine ⟨ofScript source target mapping [], ?_, rfl, rfl⟩
  rw [identity, Mapping.addSubtrees, hmapping, ok_bind]
  rfl

end TreeDiff

namespace Project

variable {source target : Tree}

theorem exists_combine {parts : List Contribution}
    (h : ∀ part ∈ parts, ∃ mapping, part.mapping = .ok mapping ∧ mapping.Suits source target) :
    ∃ mapping, combine parts = .ok mapping ∧ mapping.Suits source target := by
  refine foldlM_ok (fun _ => Mapping.Suits source target) Mapping.suits_empty ?_
  intro seen part rest mapping hlist hsuits
  have hpart : part ∈ parts := by
    rw [← (List.mergeSort_perm parts Contribution.comesFirst).mem_iff, hlist]
    exact List.mem_append_right _ (List.mem_cons_self ..)
  obtain ⟨found, hfound, hsuits'⟩ := h part hpart
  refine ⟨(mapping.merge found).1, ?_, hsuits.merge hsuits'⟩
  rw [hfound]
  rfl

theorem exists_fileDiff (model : ModelDiff) (files : FilePair) {parts : List Contribution}
    (h : ∀ part ∈ parts, ∃ mapping, part.mapping = .ok mapping ∧ mapping.Suits source target) :
    ∃ diff, fileDiff model files source target parts = .ok diff ∧
      diff.IsBetween source target := by
  obtain ⟨mapping, hmapping, hsuits⟩ := exists_combine h
  rw [fileDiff, hmapping, ok_bind]
  exact TreeDiff.exists_ofTask _ hsuits

theorem exists_relocationDiff (thresholds : Thresholds) (source target : Tree) (r : Relocation) :
    ∃ diff, relocationDiff thresholds source target r = .ok diff ∧
      diff.IsBetween source target := by
  obtain ⟨mapping, hmapping, hsuits⟩ :=
    Matching.exists_suited source target thresholds r.source r.target
  rw [relocationDiff, hmapping, ok_bind]
  exact TreeDiff.exists_ofTask _ hsuits

/-! ### Attempts that worked out -/

variable {before after : Snapshot} {files : FilePair} {keys : List FilePair}

/-- A diff of given files. -/
def IsOf (files : FilePair) (diff : TreeDiff) : Prop :=
  ((⟨diff.sourcePath, diff.targetPath⟩ : FilePair) == files) = true

/-- An attempt for given files that worked out. -/
def Worked (files : FilePair) (attempt : Attempt) : Prop :=
  attempt.1 = files ∧ ∃ diff, attempt.2 = .ok diff ∧ IsOf files diff

theorem exists_trees
    (h : before.files.contains files.source = true ∧ after.files.contains files.target = true) :
    ∃ source target, trees before after files = .ok (source, target) ∧
      before.tree? files.source = some source ∧ after.tree? files.target = some target := by
  obtain ⟨source, hsource⟩ := Option.isSome_iff_exists.1 h.1
  obtain ⟨target, htarget⟩ := Option.isSome_iff_exists.1 h.2
  exact ⟨source, target, by simp only [trees, Snapshot.tree?, hsource, htarget], hsource, htarget⟩

/-- An attempt works out if both files are found and their trees have a diff. -/
theorem exists_attempt (hbefore : before.Stored) (hafter : after.Stored)
    (hfound : before.files.contains files.source = true ∧ after.files.contains files.target = true)
    (make : Tree → Tree → Except Violation TreeDiff)
    (hmake : ∀ source target, before.tree? files.source = some source →
      after.tree? files.target = some target →
      ∃ diff, make source target = .ok diff ∧ diff.IsBetween source target) :
    ∃ attempt, (trees before after files >>= fun found => pure (files, make found.1 found.2)) =
      Except.ok attempt ∧ Worked files attempt := by
  obtain ⟨source, target, htrees, hsource, htarget⟩ := exists_trees hfound
  obtain ⟨diff, hdiff, hsourcePath, htargetPath⟩ := hmake source target hsource htarget
  refine ⟨(files, make source target), by rw [htrees]; rfl, rfl, diff, hdiff, ?_⟩
  rw [IsOf, hsourcePath, htargetPath]
  exact FilePair.beq_iff.2 ⟨hbefore.path_beq hsource, hafter.path_beq htarget⟩

theorem successes_of_worked {attempts : List Attempt} (h : List.Forall₂ Worked keys attempts) :
    (successes attempts).map Prod.fst = keys ∧ (∀ d ∈ successes attempts, IsOf d.1 d.2) ∧
      failuresOf attempts = [] := by
  induction h with
  | nil => exact ⟨rfl, fun _ hd => absurd hd List.not_mem_nil, rfl⟩
  | @cons files attempt keys attempts hworked _ ih =>
    obtain ⟨attempted, result⟩ := attempt
    obtain ⟨rfl, diff, rfl, hof⟩ := hworked
    obtain ⟨hkeys, hall, hfailures⟩ := ih
    exact ⟨congrArg (attempted :: ·) hkeys, List.forall_mem_cons.2 ⟨hof, hall⟩, hfailures⟩

end Project

end Reshape
