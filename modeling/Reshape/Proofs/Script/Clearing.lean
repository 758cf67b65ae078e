import Mathlib
import Reshape.Proofs.Script.Draft
import Reshape.Proofs.Script.Steps
import Reshape.Proofs.Script.Transfer

/-! # Clearing the source subtree

The first phase of a script takes away every subtree of the source without a mapped node.  Subtrees
that leave for another file go whole.  The nodes of the others go one by one, children first, so
that each of them has no children left when its turn comes.  Nothing else changes: the copies that
remain have the parents that they had, in the same order. -/

namespace Reshape.Script

/-- What an edit notes about a node that only one of the two trees has. -/
inductive Entry where
  | deleted (s : Nat)
  | movedOut (s : Nat)
  | inserted (t : Nat)
  | movedIn (t : Nat)
  deriving DecidableEq

/-- The entry of an edit; updates and moves have none. -/
def Entry.ofEdit? : Edit → Option Entry
  | .delete s => some (.deleted s)
  | .moveOut s _ _ => some (.movedOut s)
  | .insert t _ _ => some (.inserted t)
  | .moveIn t _ _ _ _ => some (.movedIn t)
  | .update _ _ | .move _ _ _ _ => none

namespace Task

variable {task : Task} {progress : Progress} {s t w : Nat}

/-- A script in the making: its draft is sound, and the edits noted so far lead to the draft. -/
structure Underway (task : Task) (progress : Progress) : Prop where
  sound : task.Sound progress.draft
  recorded : task.start.applyAll task.target progress.edits = .ok progress.draft

/-- An edit that can be performed is noted. -/
theorem Underway.emit (h : task.Underway progress) {edit : Edit} {draft : Draft}
    (happly : progress.draft.apply task.target edit = .ok draft) (hsound : task.Sound draft) :
    progress.emit task.target edit =
        .ok { progress with draft, edits := progress.edits ++ [edit] } ∧
      task.Underway { progress with draft, edits := progress.edits ++ [edit] } := by
  refine ⟨?_, hsound, ?_⟩
  · rw [Progress.emit, happly]
    rfl
  · have hrecorded := h.recorded
    unfold Draft.applyAll at hrecorded ⊢
    rw [List.foldlM_append, hrecorded, ok_bind, List.foldlM_cons, happly]
    rfl

theorem sourceSide_mapped (hone : task.mapping.OneToOne)
    (hs : task.source.Within task.sourceRoot s) :
    task.sourceSide.mapped s = true ↔ ∃ t, task.Paired s t := by
  simp only [sourceSide, start_copies.2 ⟨hs, rfl⟩, Option.bind_some, Option.isSome_iff_exists,
    (start_links hone _ _).2]
  constructor
  · rintro ⟨t, s', hpair, heq⟩
    exact ⟨t, number_inj hs heq ▸ hpair⟩
  · rintro ⟨t, hpair⟩
    exact ⟨t, s, hpair, rfl⟩

theorem targetSide_mapped (hone : task.mapping.OneToOne) :
    task.targetSide.mapped t = true ↔ ∃ s, task.Paired s t := by
  simp only [targetSide, Option.isSome_iff_exists, (start_links hone _ _).1]
  constructor
  · rintro ⟨w, s, hpair, -⟩
    exact ⟨s, hpair⟩
  · rintro ⟨s, hpair⟩
    exact ⟨_, s, hpair, rfl⟩

/-- The nodes that are deleted one by one in the first phase. -/
def bare (task : Task) : List Nat :=
  (task.source.postorder task.sourceRoot).filter fun s =>
    task.sourceSide.unmapped s && !task.sourceSide.carried s

/-- The nodes that the first phase takes away from their parents. -/
def cleared (task : Task) : List Nat :=
  task.sourceSide.transferred.map Report.node ++ task.bare

theorem mem_bare : s ∈ task.bare ↔ task.source.Within task.sourceRoot s ∧
    task.sourceSide.unmapped s = true ∧ task.sourceSide.carried s = false := by
  simp [bare, task.source.mem_postorder]

theorem mem_cleared : s ∈ task.cleared ↔ task.sourceSide.TakenUp s ∨ s ∈ task.bare := by
  rw [cleared, List.mem_append, ScriptSide.mem_transferred_nodes]

theorem within_of_mem_cleared (h : s ∈ task.cleared) : task.source.Within task.sourceRoot s := by
  rcases mem_cleared.1 h with h | h
  · exact h.1
  · exact (mem_bare.1 h).1

theorem unmapped_of_mem_cleared (h : s ∈ task.cleared) : task.sourceSide.unmapped s = true := by
  rcases mem_cleared.1 h with h | h
  · exact ScriptSide.unmapped_of_transfers h.2.1
  · exact (mem_bare.1 h).2.1

/-- Of a subtree without a mapped node, the top is taken away, or its parent leaves with it. -/
theorem cleared_or_carried (hs : task.source.Within task.sourceRoot s)
    (h : task.sourceSide.unmapped s = true) :
    s ∈ task.cleared ∨ s ≠ task.sourceRoot ∧ ∃ p, task.source.parent s = some p ∧
      task.source.Within task.sourceRoot p ∧ task.sourceSide.carried p = true := by
  by_cases hcarried : task.sourceSide.carried s = true
  · obtain ⟨a, ha, hsa⟩ := ScriptSide.exists_takenUp hs hcarried
    rcases hsa.eq_or_step with rfl | ⟨p, hp, hpa⟩
    · exact Or.inl (mem_cleared.2 (Or.inl ha))
    · refine Or.inr ⟨?_, p, hp, hpa.trans ha.1, ha.carried hpa⟩
      rintro rfl
      have hlt := task.source.lt_of_parent hp
      have hle := task.source.le_of_within (hpa.trans ha.1)
      exact absurd hlt (Nat.not_lt.2 hle)
  · exact Or.inl (mem_cleared.2 (Or.inr (mem_bare.2 ⟨hs, h, by simpa using hcarried⟩)))

/-! ### Taking copies away -/

/-- Since `base`, some copies have been taken away from their parents, and that is all. -/
structure Pruning (task : Task) (base : Progress) (gone : List Nat) (progress : Progress) : Prop
    extends Underway task progress where
  inOrder_eq : progress.inOrder = base.inOrder
  standIns_eq : progress.draft.standIns = base.draft.standIns
  partners_eq : progress.draft.partners = base.draft.partners
  prunes : base.draft.work.Prunes (gone.map task.number) progress.draft.work

namespace Pruning

variable {base : Progress} {gone : List Nat}

theorem start (h : task.Underway base) : task.Pruning base [] base where
  toUnderway := h
  inOrder_eq := rfl
  standIns_eq := rfl
  partners_eq := rfl
  prunes := WorkTree.Prunes.nil _

/-- One more copy is taken away. -/
theorem leave (h : task.Pruning base gone progress) (hbase : base.draft.work.Linked) {edit : Edit}
    (happly : progress.draft.apply task.target edit =
      .ok { progress.draft with work := progress.draft.work.detach (task.number s) }) :
    ∃ next, progress.emit task.target edit = .ok next ∧ task.Pruning base (gone ++ [s]) next ∧
      next.edits = progress.edits ++ [edit] := by
  obtain ⟨hemit, hunder⟩ := h.toUnderway.emit happly (h.sound.detach (task.number s))
  refine ⟨_, hemit, ⟨hunder, h.inOrder_eq, h.standIns_eq, h.partners_eq, ?_⟩, rfl⟩
  rw [List.map_append]
  exact h.prunes.detach hbase (task.number s)

/-- A copy whose children have all been taken away has none. -/
theorem children_eq_nil (h : task.Pruning base gone progress)
    (hgone : ∀ c ∈ base.draft.work.children w, c ∈ gone.map task.number) :
    progress.draft.work.children w = [] := by
  rw [h.prunes.children_eq]
  refine List.filter_eq_nil_iff.2 fun c hc => ?_
  simpa using hgone c hc

end Pruning

/-! ### The first phase -/

/-- The source subtree has been cleared. -/
def Cleared (task : Task) (progress : Progress) : Prop :=
  task.Pruning { draft := task.start } task.cleared progress

theorem underway_start (hone : task.mapping.OneToOne) :
    task.Underway { draft := task.start } :=
  ⟨sound_start hone, rfl⟩

/-- The departures leave one after the other. -/
theorem exists_departed (hone : task.mapping.OneToOne) :
    ∃ progress, Progress.emitAll task.target { draft := task.start }
        (task.sourceSide.transferred.map departure) = .ok progress ∧
      task.Pruning { draft := task.start } (task.sourceSide.transferred.map Report.node) progress ∧
      progress.edits = task.sourceSide.transferred.map departure := by
  rw [Progress.emitAll, List.foldlM_map]
  refine foldlM_ok (fun seen progress =>
    task.Pruning { draft := task.start } (seen.map Report.node) progress ∧
      progress.edits = seen.map departure) ⟨Pruning.start (underway_start hone), rfl⟩ ?_
  rintro seen report rest progress hlist ⟨h, hnoted⟩
  have htaken : task.sourceSide.TakenUp report.node :=
    ScriptSide.mem_transferred_nodes.1 (List.mem_map_of_mem (by rw [hlist]; simp))
  obtain ⟨next, hnext, hclear, hedit⟩ := h.leave task.start_linked
    (h.sound.apply_moveOut htaken.1 report.file report.justification)
  refine ⟨next, hnext, ?_, ?_⟩
  · rw [List.map_append]
    exact hclear
  · rw [List.map_append, ← hnoted]
    exact hedit

/-- What is left without a mapped node goes from the leaves up. -/
theorem exists_deleted
    (h : task.Pruning { draft := task.start } (task.sourceSide.transferred.map Report.node)
      progress) :
    ∃ next, Progress.emitAll task.target progress (task.bare.map .delete) = .ok next ∧
      task.Cleared next ∧ next.edits = progress.edits ++ task.bare.map .delete := by
  rw [Progress.emitAll, List.foldlM_map]
  refine foldlM_ok (fun seen next =>
    task.Pruning { draft := task.start }
        (task.sourceSide.transferred.map Report.node ++ seen) next ∧
      next.edits = progress.edits ++ seen.map .delete)
    ⟨by rwa [List.append_nil], by simp⟩ ?_
  rintro seen s rest before hlist ⟨h, hnoted⟩
  obtain ⟨hs, hunmapped, hcarried⟩ := mem_bare.1 (by rw [hlist]; simp : s ∈ task.bare)
  -- A child has left for another file, or it comes before its parent in postorder.
  have hchildren : ∀ c ∈ task.start.work.children (task.number s),
      c ∈ (task.sourceSide.transferred.map Report.node ++ seen).map task.number := by
    intro w hw
    rw [start_children hs] at hw
    obtain ⟨c, hc, rfl⟩ := List.mem_map.1 hw
    replace hc := task.source.mem_children.1 hc
    refine List.mem_map_of_mem ?_
    by_cases hcc : task.sourceSide.carried c = true
    · exact List.mem_append_left _ (ScriptSide.mem_transferred_nodes.2
        (ScriptSide.takenUp_of_parent hs hc hcarried hcc))
    · obtain ⟨seen', rest', hpost, rfl⟩ := filter_split hlist
      have hunmapped' := ScriptSide.unmapped_of_within hunmapped (Leads.single hc)
      refine List.mem_append_right _ (List.mem_filter.2 ⟨?_, by simp [hunmapped', hcc]⟩)
      exact task.source.child_mem_of_postorder hpost hc
  obtain ⟨next, hnext, hclear, hedit⟩ := h.leave task.start_linked
    (h.sound.apply_delete hs (h.children_eq_nil hchildren))
  refine ⟨next, hnext, ?_, ?_⟩
  · rw [← List.append_assoc]
    exact hclear
  · rw [List.map_append, ← List.append_assoc, ← hnoted]
    exact hedit

/-- **The first phase** takes away what it is to take away, and notes it. -/
theorem cleared_clear (hone : task.mapping.OneToOne) : task.Cleared task.clear ∧
    task.clear.edits = task.sourceSide.transferred.map departure ++ task.bare.map .delete := by
  obtain ⟨departed, hdepart, hdeparted, hnoted⟩ := exists_departed hone
  obtain ⟨done, hdelete, hdone, hnoted'⟩ := exists_deleted hdeparted
  rw [clear_eq hdepart hdelete]
  exact ⟨hdone, by rw [hnoted', hnoted]⟩

end Task

end Reshape.Script
