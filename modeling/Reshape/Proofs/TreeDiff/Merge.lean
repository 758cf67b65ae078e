import Mathlib
import Reshape.Project
import Reshape.Proofs.Mapping.Calls
import Reshape.Proofs.Project.Attempt
import Reshape.Proofs.Script.Account

/-! # Merged diffs

The diff of two subtrees lists as removed the nodes of the one that have no partner, and as added
those of the other.  Merging two such diffs unites the lists, but not the mappings: a pair is not
taken over if one of its nodes has a partner already.  So a node of both subtrees can end up with a
partner from the one diff while the other diff lists it, and these are the only nodes that are
listed although they have a partner.  Nothing of the kind happens on a side where the two subtrees
are apart. -/

namespace Reshape

namespace Script.Task

variable {task : Task} {edits : List Edit} {draft : Draft} {s t : Nat}

/-- Only nodes of the source subtree are deleted or leave. -/
theorem Made.source_within (h : task.Made edits draft)
    (hs : 0 < edits.countP (Edit.deletes s) ∨ 0 < edits.countP (Edit.carriesOff task.source s)) :
    task.source.Within task.sourceRoot s := by
  obtain ⟨left, -, hmem, hentries⟩ := h.entries
  rcases hs with hs | hs
  · rw [countP_edits hentries (fun | .deleted x => x == s | _ => false)
      (fun edit => by cases edit <;> rfl)] at hs
    have hdeleted : s ∈ task.bare ∨ s ∈ left := by
      simpa [List.countP_pos_iff] using hs
    rcases hdeleted with hbare | hleft
    · exact (mem_bare.1 hbare).1
    · exact ((hmem s).1 hleft).1
  · rw [countP_edits hentries (fun | .movedOut x => task.source.isAncestorOrSelf x s | _ => false)
      (fun edit => by cases edit <;> rfl)] at hs
    obtain ⟨a, ha, has⟩ : ∃ a ∈ task.sourceSide.transferred.map Report.node,
        task.source.isAncestorOrSelf a s = true := by
      simpa [List.countP_pos_iff] using hs
    exact (task.source.isAncestorOrSelf_iff.1 has).trans (ScriptSide.mem_transferred_nodes.1 ha).1

/-- Only nodes of the target subtree are inserted or arrive. -/
theorem Made.target_within (h : task.Made edits draft)
    (ht : 0 < edits.countP (Edit.inserts t) ∨ 0 < edits.countP (Edit.bringsIn task.target t)) :
    task.target.Within task.targetRoot t := by
  obtain ⟨left, -, -, hentries⟩ := h.entries
  rcases ht with ht | ht
  · rw [countP_edits hentries (fun | .inserted x => x == t | _ => false)
      (fun edit => by cases edit <;> rfl)] at ht
    have hvisited : t ∈ task.visits ∧ task.targetSide.mapped t = false := by
      simpa [List.countP_pos_iff] using ht
    exact (mem_visits.1 hvisited.1).1
  · rw [countP_edits hentries (fun | .movedIn x => task.target.isAncestorOrSelf x t | _ => false)
      (fun edit => by cases edit <;> rfl)] at ht
    obtain ⟨a, ha, hat⟩ : ∃ a ∈ task.targetSide.transferred.map Report.node,
        task.target.isAncestorOrSelf a t = true := by
      simpa [List.countP_pos_iff] using ht
    exact (task.target.isAncestorOrSelf_iff.1 hat).trans (ScriptSide.mem_transferred_nodes.1 ha).1

end Script.Task

namespace TreeDiff

variable {source target : Tree} {diff other : TreeDiff} {x y : Nat}

/-- A diff of two subtrees: it comes from a task for them, with any reports, whose mapping pairs
nodes of the two subtrees one-to-one. -/
def OfSubtrees (source target : Tree) (s t : Nat) (diff : TreeDiff) : Prop :=
  ∃ task : Script.Task, task.source = source ∧ task.target = target ∧ task.sourceRoot = s ∧
    task.targetRoot = t ∧ task.mapping.OneToOne ∧
    (∀ x y, task.mapping.target? x = some y → task.Paired x y) ∧ ofTask task = .ok diff

/-- The diff of an entity and its new place is one of two subtrees. -/
theorem ofSubtrees_relocationDiff {thresholds : Thresholds} {r : Project.Relocation}
    (h : Project.relocationDiff thresholds source target r = .ok diff) :
    OfSubtrees source target r.source r.target diff := by
  obtain ⟨mapping, hmapping, hgrow⟩ := Matching.exists_matchMeasured
    (source.measured Digest.standard) (target.measured Digest.standard) thresholds r.source r.target
  rw [Project.relocationDiff, Matching.matchSubtrees, hmapping, ok_bind] at h
  refine ⟨_, rfl, rfl, rfl, rfl, hgrow.oneToOne, fun x y hxy => ?_, h⟩
  rcases hgrow.gains x y hxy with hempty | hpair
  · cases hempty
  · exact ⟨hxy, hpair.1, hpair.2.1⟩

/-! ### What a diff of two subtrees lists -/

/-- A diff lists exactly the nodes of its two subtrees that it gives no partner. -/
structure Lists (source target : Tree) (s t : Nat) (diff : TreeDiff) : Prop where
  oneToOne : diff.mapping.OneToOne
  removed_iff : ∀ x, diff.removed.contains x = true ↔
    source.Within s x ∧ diff.mapping.target? x = none
  added_iff : ∀ y, diff.added.contains y = true ↔
    target.Within t y ∧ diff.mapping.source? y = none
  within : ∀ x y, diff.mapping.target? x = some y → source.Within s x ∧ target.Within t y

theorem OfSubtrees.lists {s t : Nat} (h : OfSubtrees source target s t diff) :
    Lists source target s t diff := by
  obtain ⟨task, rfl, rfl, rfl, rfl, hone, hwithin, hdiff⟩ := h
  obtain ⟨edits, draft, hscript, hmade⟩ := Script.Task.exists_script hone
  rw [ofTask, hscript, ok_bind] at hdiff
  obtain ⟨-, -, hdiff⟩ := bind_eq_ok.1 hdiff
  obtain rfl := Except.ok.inj hdiff
  refine ⟨hone, fun x => ?_, fun y => ?_, fun x y hxy => (hwithin x y hxy).2⟩
  · have hpartner : (¬ ∃ t, task.Paired x t) ↔ task.mapping.target? x = none := by
      rw [not_exists, Option.eq_none_iff_forall_ne_some]
      exact forall_congr' fun t => not_congr ⟨fun h => h.1, hwithin x t⟩
    rw [contains_removed, Action.editsAll_group]
    constructor
    · intro hcount
      have hx := hmade.source_within hcount
      exact ⟨hx, hpartner.1 ((hmade.source_accounted hone hx).not_paired_iff.2 hcount)⟩
    · rintro ⟨hx, hnone⟩
      exact (hmade.source_accounted hone hx).not_paired_iff.1 (hpartner.2 hnone)
  · have hpartner : (¬ ∃ s, task.Paired s y) ↔ task.mapping.source? y = none := by
      rw [not_exists, Option.eq_none_iff_forall_ne_some]
      refine forall_congr' fun s => not_congr ⟨fun h => (hone s y).1 h.1, fun h => ?_⟩
      exact hwithin s y ((hone s y).2 h)
    rw [contains_added, Action.editsAll_group]
    constructor
    · intro hcount
      have hy := hmade.target_within hcount
      exact ⟨hy, hpartner.1 ((hmade.target_accounted hone hy).not_paired_iff.2 hcount)⟩
    · rintro ⟨hy, hnone⟩
      exact (hmade.target_accounted hone hy).not_paired_iff.1 (hpartner.2 hnone)

/-! ### Merging -/

theorem contains_removed_merge :
    (diff.merge other).1.removed.contains x = true ↔
      diff.removed.contains x = true ∨ other.removed.contains x = true := by
  simp [merge, Std.TreeSet.contains_insertMany_list]

theorem contains_added_merge :
    (diff.merge other).1.added.contains y = true ↔
      diff.added.contains y = true ∨ other.added.contains y = true := by
  simp [merge, Std.TreeSet.contains_insertMany_list]

theorem target?_merge (hother : other.mapping.OneToOne) :
    (diff.merge other).1.mapping.target? x = some y ↔ diff.mapping.target? x = some y ∨
      other.mapping.target? x = some y ∧ diff.mapping.Free x y :=
  (hother.merge_exact diff.mapping).1 x y

/-- No node is listed as removed or added although it has a partner. -/
def Consistent (diff : TreeDiff) : Prop :=
  (∀ x, diff.mapping.hasSource x = true → ¬ diff.removed.contains x = true) ∧
    ∀ y, diff.mapping.hasTarget y = true → ¬ diff.added.contains y = true

theorem consistent_iff (h : diff.mapping.OneToOne) :
    diff.Consistent ↔ ∀ x y, diff.mapping.target? x = some y →
      ¬ diff.removed.contains x = true ∧ ¬ diff.added.contains y = true := by
  simp only [Consistent, Mapping.hasSource, Mapping.hasTarget, Option.isSome_iff_exists]
  constructor
  · rintro ⟨hsource, htarget⟩ x y hxy
    exact ⟨hsource x ⟨y, hxy⟩, htarget y ⟨x, (h x y).1 hxy⟩⟩
  · intro hpairs
    constructor
    · rintro x ⟨y, hxy⟩
      exact (hpairs x y hxy).1
    · rintro y ⟨x, hyx⟩
      exact (hpairs x y ((h x y).2 hyx)).2

theorem Lists.consistent {s t : Nat} (h : Lists source target s t diff) : diff.Consistent := by
  refine (consistent_iff h.oneToOne).2 fun x y hxy => ⟨fun hremoved => ?_, fun hadded => ?_⟩
  · rw [((h.removed_iff x).1 hremoved).2] at hxy
    cases hxy
  · rw [h.oneToOne x y, ((h.added_iff y).1 hadded).2] at hxy
    cases hxy

theorem Lists.consistent_merge_iff {s t s' t' : Nat} (h : Lists source target s t diff)
    (h' : Lists source target s' t' other) :
    (diff.merge other).1.Consistent ↔
      (∀ x y, diff.mapping.target? x = some y →
        ¬ other.removed.contains x = true ∧ ¬ other.added.contains y = true) ∧
      ∀ x y, other.mapping.target? x = some y → diff.mapping.Free x y →
        ¬ diff.removed.contains x = true ∧ ¬ diff.added.contains y = true := by
  have hmerged : (diff.merge other).1.mapping.OneToOne := (h.oneToOne.merge other.mapping).1
  have hfirst := (consistent_iff h.oneToOne).1 h.consistent
  have hsecond := (consistent_iff h'.oneToOne).1 h'.consistent
  simp only [consistent_iff hmerged, target?_merge h'.oneToOne, contains_removed_merge,
    contains_added_merge, not_or]
  constructor
  · intro hall
    refine ⟨fun x y hxy => ?_, fun x y hxy hfree => ?_⟩
    · obtain ⟨hremoved, hadded⟩ := hall x y (Or.inl hxy)
      exact ⟨hremoved.2, hadded.2⟩
    · obtain ⟨hremoved, hadded⟩ := hall x y (Or.inr ⟨hxy, hfree⟩)
      exact ⟨hremoved.1, hadded.1⟩
  · rintro ⟨hkept, htaken⟩ x y (hxy | ⟨hxy, hfree⟩)
    · obtain ⟨hremoved, hadded⟩ := hfirst x y hxy
      exact ⟨⟨hremoved, (hkept x y hxy).1⟩, hadded, (hkept x y hxy).2⟩
    · obtain ⟨hremoved, hadded⟩ := hsecond x y hxy
      exact ⟨⟨(htaken x y hxy hfree).1, hremoved⟩, (htaken x y hxy hfree).2, hadded⟩

/-- What a diff pairs or lists is in its own subtrees, so diffs of subtrees that are apart do not
meet. -/
theorem Lists.consistent_merge_of_apart {s t s' t' : Nat} (h : Lists source target s t diff)
    (h' : Lists source target s' t' other) (hsource : ∀ x, source.Within s x → ¬ source.Within s' x)
    (htarget : ∀ y, target.Within t y → ¬ target.Within t' y) :
    (diff.merge other).1.Consistent := by
  refine (h.consistent_merge_iff h').2 ⟨?_, ?_⟩
  · intro x y hxy
    obtain ⟨hx, hy⟩ := h.within x y hxy
    exact ⟨fun hremoved => hsource x hx ((h'.removed_iff x).1 hremoved).1,
      fun hadded => htarget y hy ((h'.added_iff y).1 hadded).1⟩
  · intro x y hxy _
    obtain ⟨hx, hy⟩ := h'.within x y hxy
    exact ⟨fun hremoved => hsource x ((h.removed_iff x).1 hremoved).1 hx,
      fun hadded => htarget y ((h.added_iff y).1 hadded).1 hy⟩

/-- **Merging two diffs of subtrees.**  Each of the two is consistent.  The merged diff is
consistent exactly if the second one lists no node that has a partner in the first, and no pair that
is taken over from it has a node that the first one lists.  That is so if the subtrees are apart on
both sides. -/
theorem merge_consistent_iff {s t s' t' : Nat} (h : OfSubtrees source target s t diff)
    (h' : OfSubtrees source target s' t' other) :
    diff.Consistent ∧ other.Consistent ∧
    ((diff.merge other).1.Consistent ↔
      (∀ x y, diff.mapping.target? x = some y →
        ¬ other.removed.contains x = true ∧ ¬ other.added.contains y = true) ∧
      ∀ x y, other.mapping.target? x = some y → diff.mapping.Free x y →
        ¬ diff.removed.contains x = true ∧ ¬ diff.added.contains y = true) ∧
    ((∀ x, source.Within s x → ¬ source.Within s' x) →
      (∀ y, target.Within t y → ¬ target.Within t' y) → (diff.merge other).1.Consistent) :=
  ⟨h.lists.consistent, h'.lists.consistent, h.lists.consistent_merge_iff h'.lists,
    h.lists.consistent_merge_of_apart h'.lists⟩

/-- Two methods move to another file.  The body of the first is kept, that of the second is
replaced. -/
theorem merge_consistent_iff_apart :
    let source : Tree :=
      .ofNodes default "" #[{ kind := "file" }, { kind := "m", parent := some 0 },
        { kind := "s", label := "x", parent := some 1 }, { kind := "m", parent := some 0 },
        { kind := "s", label := "x", parent := some 3 }]
    let target : Tree :=
      .ofNodes default "" #[{ kind := "file" }, { kind := "m", parent := some 0 },
        { kind := "s", label := "x", parent := some 1 }, { kind := "m", parent := some 0 },
        { kind := "t", label := "y", parent := some 3 }]
    ∃ diff other, OfSubtrees source target 1 1 diff ∧ OfSubtrees source target 3 3 other ∧
      other.removed.contains 4 = true ∧ (diff.merge other).1.Consistent := by
  intro source target
  obtain ⟨diff, hdiff, -⟩ := Project.exists_relocationDiff {} source target ⟨default, 1, 1⟩
  obtain ⟨other, hother, -⟩ := Project.exists_relocationDiff {} source target ⟨default, 3, 3⟩
  have hremoved : (Project.relocationDiff {} source target ⟨default, 3, 3⟩).toOption.map
      (fun diff => diff.removed.contains 4) = some true := by decide +kernel
  rw [hother] at hremoved
  have hfirst : OfSubtrees source target 1 1 diff := ofSubtrees_relocationDiff hdiff
  have hsecond : OfSubtrees source target 3 3 other := ofSubtrees_relocationDiff hother
  refine ⟨diff, other, hfirst, hsecond, Option.some.inj hremoved,
    (merge_consistent_iff hfirst hsecond).2.2.2 ?_ ?_⟩
  · simp only [← source.mem_preorder]
    exact (by decide : ∀ x ∈ [1, 2], ¬ x ∈ [3, 4])
  · simp only [← target.mem_preorder]
    exact (by decide : ∀ y ∈ [1, 2], ¬ y ∈ [3, 4])

/-- **Overlapping diffs do not stay consistent.**  A method becomes two methods of another file, one
with its statement and one with another statement.  The first diff pairs the statement, and the
second one removes it: the merged diff does both. -/
theorem merge_inconsistent_split :
    let source : Tree := .ofNodes default "" #[{ kind := "m" },
      { kind := "s", label := "x", parent := some 0 }]
    let target : Tree :=
      .ofNodes default "" #[{ kind := "file" }, { kind := "m", parent := some 0 },
        { kind := "s", label := "x", parent := some 1 }, { kind := "m", parent := some 0 },
        { kind := "t", label := "y", parent := some 3 }]
    ∃ diff other, Project.relocationDiff {} source target ⟨default, 0, 1⟩ = .ok diff ∧
      Project.relocationDiff {} source target ⟨default, 0, 3⟩ = .ok other ∧
      (diff.merge other).1.mapping.hasSource 1 = true ∧
      (diff.merge other).1.removed.contains 1 = true ∧ ¬ (diff.merge other).1.Consistent := by
  intro source target
  obtain ⟨diff, hdiff, -⟩ := Project.exists_relocationDiff {} source target ⟨default, 0, 1⟩
  obtain ⟨other, hother, -⟩ := Project.exists_relocationDiff {} source target ⟨default, 0, 3⟩
  have hboth : (Project.relocationDiff {} source target ⟨default, 0, 1⟩).toOption.map
      (fun diff =>
        (Project.relocationDiff {} source target ⟨default, 0, 3⟩).toOption.map fun other =>
          ((diff.merge other).1.mapping.hasSource 1, (diff.merge other).1.removed.contains 1)) =
      some (some (true, true)) := by decide +kernel
  rw [hdiff, hother] at hboth
  have hpair : ((diff.merge other).1.mapping.hasSource 1, (diff.merge other).1.removed.contains 1) =
      (true, true) := Option.some.inj (Option.some.inj hboth)
  obtain ⟨hmapped, hremoved⟩ := Prod.mk.inj hpair
  exact ⟨diff, other, hdiff, hother, hmapped, hremoved, fun h => h.1 1 hmapped hremoved⟩

end TreeDiff

end Reshape
