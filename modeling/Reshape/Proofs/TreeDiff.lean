import Mathlib
import Reshape.Proofs.Project.Attempt
import Reshape.Proofs.Script.Identity
import Reshape.TreeDiff

/-! # Empty diffs

The diff of two trees is empty exactly if the trees are equal in kinds, labels and shape.  Equal
trees are mapped along their preorders, whatever the thresholds are and however many equal subtrees
they hold, and the script for such a mapping is empty.  Conversely an empty script leaves the source
as it is, and the replay has found it equal to the target. -/

namespace Reshape.TreeDiff

variable {source target : Tree} {diff : TreeDiff}

/-- An empty diff of two subtrees means that they are equal. -/
theorem alike_of_ofTask {task : Script.Task} (hone : task.mapping.OneToOne)
    (h : ofTask task = .ok diff) (hempty : diff.actions = []) :
    task.source.Alike task.target task.sourceRoot task.targetRoot := by
  obtain ⟨edits, draft, hscript, hmade⟩ := Script.Task.exists_script hone
  rw [ofTask, hscript, ok_bind, hmade.replay_eq] at h
  obtain ⟨_, hreplay, hdiff⟩ := bind_eq_ok.1 h
  obtain rfl := Except.ok.inj hdiff
  have hgroup : Action.group (edits.map .edit) = [] := hempty
  obtain rfl : edits = [] := by
    rw [← Action.editsAll_group edits, hgroup]
    rfl
  split at hreplay
  · rename_i hreaches
    exact hmade.alike hreaches
  · cases hreplay

/-- The diff of a task with nothing to do. -/
theorem ofTask_of_settled {task : Script.Task} (h : task.Settled) :
    ofTask task = .ok (ofScript task.source task.target task.mapping []) := by
  have hsuits : task.mapping.Suits task.source task.target :=
    ⟨h.twins.oneToOne, fun s t hst =>
      (h.alike.of_mem_subtreePairs ((h.twins.target?_iff s t).1 hst)).kind_eq⟩
  obtain ⟨diff, hdiff, -⟩ := exists_ofTask task hsuits
  have hopen := hdiff
  rw [ofTask, h.script, ok_bind] at hopen
  obtain ⟨-, -, heq⟩ := bind_eq_ok.1 hopen
  obtain rfl := Except.ok.inj heq
  exact hdiff

/-- Equal trees have the identity diff, which pairs their nodes along the preorders. -/
theorem compute_of_alike (thresholds : Thresholds) (h : source.Alike target source.root target.root)
    (hsource : source.root < source.size) (htarget : target.root < target.size) :
    ∃ mapping, mapping.Twins source target source.root target.root ∧
      compute source target thresholds = .ok (ofScript source target mapping []) ∧
      identity source target = .ok (ofScript source target mapping []) := by
  obtain ⟨mapping, hadd, htwins⟩ :=
    Mapping.exists_twins source target source.root target.root
  refine ⟨mapping, htwins, ?_, ?_⟩
  · rw [compute, Matching.matchTrees, Matching.matchSubtrees_of_alike thresholds h hsource htarget,
      hadd, ok_bind]
    exact ofTask_of_settled ⟨h, htwins, rfl, rfl⟩
  · rw [identity, hadd]
    rfl

/-- **A diff is empty exactly if the trees are equal**, and then it is the identity diff: it pairs
the nodes at the same places of the two preorders. -/
theorem compute_empty_iff_equal (source target : Tree) (thresholds : Thresholds)
    (hsource : source.isEmpty = false) (htarget : target.isEmpty = false) :
    ∃ diff, compute source target thresholds = .ok diff ∧
      (diff.actions = [] ↔ source.texts source.root = target.texts target.root) ∧
      (diff.actions = [] → identity source target = .ok diff ∧
        (source.preorder source.root).length = (target.preorder target.root).length ∧
        ∀ s t, (s, t) ∈ diff.mapping.pairs ↔
          ∃ i : Nat, (source.preorder source.root)[i]? = some s ∧
            (target.preorder target.root)[i]? = some t) := by
  have hsource' : source.root < source.size := source.root_lt_size hsource
  have htarget' : target.root < target.size := target.root_lt_size htarget
  obtain ⟨mapping, hmapping, hsuits⟩ :=
    Matching.exists_suited source target thresholds source.root target.root
  obtain ⟨diff, hdiff, -⟩ := exists_ofTask { source, target, mapping } hsuits
  have hcompute : compute source target thresholds = .ok diff := by
    rw [compute, Matching.matchTrees, hmapping, ok_bind, hdiff]
  have hequal : diff.actions = [] → source.Alike target source.root target.root :=
    alike_of_ofTask hsuits.oneToOne hdiff
  refine ⟨diff, hcompute, ⟨hequal, fun h => ?_⟩, fun hempty => ?_⟩
  · obtain ⟨twins, -, htwins, -⟩ := compute_of_alike thresholds h hsource' htarget'
    obtain rfl := Except.ok.inj (hcompute.symm.trans htwins)
    rfl
  · obtain ⟨twins, htwins, hcompute', hidentity⟩ :=
      compute_of_alike thresholds (hequal hempty) hsource' htarget'
    obtain rfl := Except.ok.inj (hcompute.symm.trans hcompute')
    refine ⟨hidentity, (hequal hempty).preorder.length_eq, fun s t => ?_⟩
    rw [Mapping.mem_pairs]
    show twins.target? s = some t ↔ _
    rw [htwins.target?_iff, Mapping.subtreePairs, List.mem_iff_getElem?]
    exact exists_congr fun i => List.getElem?_zip_eq_some

/-- Two numberings of one tree with two equal branches, both too low to be matched as a whole.  The
branches are not swapped. -/
theorem compute_empty_branches :
    let source : Tree := .ofNodes default "" #[{ kind := "a" }, { kind := "b", parent := some 0 },
      { kind := "b", parent := some 0 }, { kind := "c", label := "x", parent := some 1 },
      { kind := "c", label := "x", parent := some 2 }]
    let target : Tree := .ofNodes default "" #[{ kind := "a" }, { kind := "b", parent := some 0 },
      { kind := "c", label := "x", parent := some 1 }, { kind := "b", parent := some 0 },
      { kind := "c", label := "x", parent := some 3 }]
    source.isEmpty = false ∧ target.isEmpty = false ∧
      ∃ diff, compute source target { minHeight := 9 } = .ok diff ∧ diff.actions = [] ∧
        identity source target = .ok diff ∧ (3, 2) ∈ diff.mapping.pairs ∧
        (3, 4) ∉ diff.mapping.pairs := by
  intro source target
  have hsource : source.isEmpty = false := rfl
  have htarget : target.isEmpty = false := rfl
  obtain ⟨diff, hdiff, hempty, hpairs⟩ :=
    compute_empty_iff_equal source target { minHeight := 9 } hsource htarget
  have hnothing : diff.actions = [] := hempty.2 rfl
  obtain ⟨hidentity, -, hpairs⟩ := hpairs hnothing
  refine ⟨hsource, htarget, diff, hdiff, hnothing, hidentity, (hpairs 3 2).2 ⟨2, rfl, rfl⟩, ?_⟩
  have horder : source.preorder source.root = [0, 1, 3, 2, 4] := rfl
  have horder' : target.preorder target.root = [0, 1, 2, 3, 4] := rfl
  rw [hpairs, horder, horder']
  rintro ⟨i, hi, hi'⟩
  match i with
  | 0 | 1 | 2 | 3 | 4 => simp at hi hi'
  | i + 5 => simp at hi

end Reshape.TreeDiff
