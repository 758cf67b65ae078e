import Mathlib
import Reshape.Proofs.Script.Visiting

/-! # Deleting what is left over

After the second phase every work node below the top stands for a target node or is the copy of a
source node that has, or had, a mapped node below it.  The third phase deletes the latter.  It walks
over the work tree in postorder, so it matters that the work tree has no cycle by now: going up from
a node that stands for something leads along the ancestors in the target to the top, and going up
from another node leads along the ancestors in the source, until something stands for one of them.

What remains is a tree of nodes that stand for target nodes, with the children in the order of the
target. -/

namespace Reshape.Script.Task

variable {task : Task} {base progress : Progress} {s t w p : Nat} {y : Option Nat}

/-- The second phase is over. -/
structure Visited (task : Task) (progress : Progress) : Prop extends Underway task progress where
  mem_visits : ∀ t w : Nat, progress.draft.standIns[t]? = some w → t ∈ task.visits
  stands : ∀ t ∈ task.visits, ∃ w p : Nat, progress.draft.standIns[t]? = some w ∧
    progress.draft.place? (task.targetParent t) = some p ∧
    progress.draft.work.parent w = some p ∧ progress.draft.work.label w = task.target.label t
  ordered : ∀ (y : Option Nat) (p : Nat), progress.draft.place? y = some p →
    ((task.targetChildren y).filterMap (progress.draft.standIns[·]?)).Sublist
      (progress.draft.work.children p)
  parent_eq : ∀ s, task.source.Within task.sourceRoot s →
    progress.draft.partners[task.number s]? = none →
    progress.draft.work.parent (task.number s) =
      if s ∈ task.cleared then none else task.start.work.parent (task.number s)

theorem Visiting.visited (h : task.Visiting base task.visits [] progress)
    (hbase : task.Cleared base) : task.Visited progress := by
  have hvisits : ∀ t w : Nat, progress.draft.standIns[t]? = some w → t ∈ task.visits := by
    intro t w hw
    by_contra hnot
    have hin := h.sound.link_within t w hw
    have hcarried : task.targetSide.carried t = true := by
      by_contra hcarried
      exact hnot (Task.mem_visits.2 ⟨hin, by simpa using hcarried⟩)
    have hunmapped := ScriptSide.unmapped_iff.1 (ScriptSide.unmapped_of_carried hin hcarried) t
      (Leads.refl t)
    rw [h.fresh t hnot] at hw
    have hmapped : task.targetSide.mapped t = true := Option.isSome_iff_exists.2 ⟨w, hw⟩
    rw [hunmapped] at hmapped
    cases hmapped
  refine ⟨h.toUnderway, hvisits, ?_, ?_, ?_⟩
  · intro t ht
    obtain ⟨hmark, w, hw, hlabel⟩ := h.done t ht
    obtain ⟨w', p, hw', hp, hup⟩ := h.inOrder.placed t hmark
    obtain rfl : w' = w := Option.some.inj (hw'.symm.trans hw)
    exact ⟨w', p, hw', hp, hup, hlabel⟩
  · intro y p hp
    have hshown : (task.targetChildren y).filterMap (progress.draft.standIns[·]?) =
        task.shown progress.draft progress.inOrder y := by
      rw [shown, List.filterMap_filter]
      refine List.filterMap_congr fun t _ => ?_
      cases hw : progress.draft.standIns[t]? with
      | none => simp
      | some w =>
        have hmark := (h.done t (hvisits t w hw)).1
        simp [hmark]
    rw [hshown]
    exact h.inOrder.ordered y p hp
  · -- A copy that stands for nothing has not moved since the first phase.
    intro s hs hnone
    rw [h.unmoved, hbase.prunes.parent_eq]
    · refine if_congr ?_ rfl rfl
      rw [List.mem_map]
      constructor
      · rintro ⟨x, hx, heq⟩
        exact number_inj (within_of_mem_cleared hx) heq ▸ hx
      · exact fun hs => ⟨s, hs, rfl⟩
    · intro t _ hw
      rw [(h.sound.link_iff t _).1 hw] at hnone
      cases hnone

/-! ### The work tree has no cycle -/

/-- A rank for the work nodes: what stands for a target node is above all that stands for nothing,
and the higher up the node is in the target. -/
def rank (task : Task) (draft : Draft) (w : Nat) : Nat :=
  if w = WorkTree.top then task.start.work.next + (task.target.size + task.targetRoot) + 2
  else
    match draft.partners[w]? with
    | some t => task.start.work.next + 1 + (task.target.size + task.targetRoot - t)
    | none => task.start.work.next - w

namespace Visited

/-- What stands for a target node stands below the place of its parent. -/
theorem place_targetParent (h : task.Visited progress) (hw : progress.draft.partners[w]? = some t)
    (hup : progress.draft.work.parent w = some p) :
    progress.draft.place? (task.targetParent t) = some p := by
  have hstand := (h.sound.link_iff t w).2 hw
  obtain ⟨w', p', hw', hp', hup', -⟩ := h.stands t (h.mem_visits t w hstand)
  obtain rfl : w' = w := Option.some.inj (hw'.symm.trans hstand)
  rw [hp', ← hup', hup]

theorem ne_top_of_parent (h : task.Visited progress)
    (hup : progress.draft.work.parent w = some p) : w ≠ WorkTree.top := by
  rintro rfl
  rw [h.sound.top_parent] at hup
  cases hup

/-- Every step up the work tree leads to a higher rank. -/
theorem climbs (h : task.Visited progress) :
    Climbs progress.draft.work.parent (task.rank progress.draft) := by
  intro w p hup
  have hwtop := h.ne_top_of_parent hup
  cases hw : progress.draft.partners[w]? with
  | some t =>
    -- The step follows the target: to what stands for the parent there, or to the top.
    have hstand := (h.sound.link_iff t w).2 hw
    have hplace := h.place_targetParent hw hup
    have hle : t ≤ task.target.size + task.targetRoot := by
      rcases task.target.eq_or_lt_size_of_within (h.sound.link_within t w hstand) with rfl | hlt <;>
        omega
    cases hy : task.targetParent t with
    | none =>
      rw [hy] at hplace
      obtain rfl : WorkTree.top = p := Option.some.inj hplace
      simp only [rank, hwtop, ↓reduceIte, hw]
      omega
    | some v =>
      rw [hy] at hplace
      have hptop := (h.sound.link_lt v p hplace).2
      have hlt := task.target.lt_of_parent
        (targetParent_mem_visits (h.mem_visits t w hstand) hy).2
      simp only [rank, hwtop, hptop, ↓reduceIte, hw, (h.sound.link_iff v p).1 hplace]
      omega
  | none =>
    -- The step follows the source, where parents have smaller numbers.
    obtain ⟨s, hs, rfl⟩ := h.sound.covered w (WorkTree.lt_next_of_parent hup) hwtop hw
    have hparent := h.parent_eq s hs hw
    rw [hup] at hparent
    split at hparent
    · cases hparent
    · have hlt := start_parent_lt hparent.symm
      have hnext := number_lt_next hs
      by_cases hptop : p = WorkTree.top
      · simp only [rank, hwtop, hptop, ↓reduceIte, hw]
        omega
      · cases hp : progress.draft.partners[p]? with
        | none =>
          simp only [rank, hwtop, hptop, ↓reduceIte, hw, hp]
          omega
        | some v =>
          simp only [rank, hwtop, hptop, ↓reduceIte, hw, hp]
          omega

/-- Going up from what stands for a target node leads to the top. -/
theorem leads_top (h : task.Visited progress) (hp : progress.draft.place? y = some p) :
    Leads progress.draft.work.parent p WorkTree.top := by
  cases y with
  | none =>
    obtain rfl : WorkTree.top = p := Option.some.inj hp
    exact Leads.refl _
  | some t =>
    -- Parents have smaller numbers in the target, so the induction is on the number.
    induction t using Nat.strongRecOn generalizing p with
    | ind t ih =>
      have ht := h.mem_visits t p hp
      obtain ⟨w, q, hw, hq, hup, -⟩ := h.stands t ht
      obtain rfl : w = p := Option.some.inj (hw.symm.trans hp)
      refine Leads.step hup ?_
      cases hy : task.targetParent t with
      | none =>
        rw [hy] at hq
        obtain rfl : WorkTree.top = q := Option.some.inj hq
        exact Leads.refl _
      | some v =>
        rw [hy] at hq
        exact ih v (task.target.lt_of_parent (targetParent_mem_visits ht hy).2) hq

/-- What the first phase took away, with all below it, is not below the top any more. -/
theorem not_leads_top_of_unmapped (h : task.Visited progress) (hone : task.mapping.OneToOne)
    (hs : task.source.Within task.sourceRoot s) (hunmapped : task.sourceSide.unmapped s = true) :
    ¬ Leads progress.draft.work.parent (task.number s) WorkTree.top := by
  induction s using Nat.strongRecOn with
  | ind s ih =>
    intro hleads
    rcases hleads.eq_or_step with heq | ⟨p, hup, hleads⟩
    · exact task.number_ne_top s heq
    · have hnone : progress.draft.partners[task.number s]? = none := by
        by_contra hsome
        obtain ⟨t, ht⟩ := Option.ne_none_iff_exists'.1 hsome
        have hmapped := (sourceSide_mapped hone hs).2 ⟨t, h.sound.paired hone hs ht⟩
        rw [ScriptSide.unmapped_iff.1 hunmapped s (Leads.refl s)] at hmapped
        cases hmapped
      rw [h.parent_eq s hs hnone] at hup
      -- Going up within a subtree that left ends at its top, which has no parent any more.
      rcases cleared_or_carried hs hunmapped with hcleared | ⟨hroot, q, hq, hwithin, hcarried⟩
      · simp [hcleared] at hup
      · split at hup
        · cases hup
        · rw [start_parent hs, if_neg hroot, hq] at hup
          obtain rfl : task.number q = p := by simpa using hup
          exact ih q (task.source.lt_of_parent hq) hwithin
            (ScriptSide.unmapped_of_carried hwithin hcarried) hleads

/-- A copy with a mapped node below its source node is still below the top. -/
theorem leads_top_of_mapped (h : task.Visited progress)
    (hs : task.source.Within task.sourceRoot s) (hmapped : task.sourceSide.unmapped s = false) :
    Leads progress.draft.work.parent (task.number s) WorkTree.top := by
  induction s using Nat.strongRecOn with
  | ind s ih =>
    cases hpartner : progress.draft.partners[task.number s]? with
    | some t => exact h.leads_top (y := some t) ((h.sound.link_iff t _).2 hpartner)
    | none =>
      -- The copy was never moved, and the mapped node below it is below its parent as well.
      have hparent := h.parent_eq s hs hpartner
      rw [if_neg, start_parent hs] at hparent
      · by_cases hroot : s = task.sourceRoot
        · rw [if_pos hroot] at hparent
          exact Leads.single hparent
        · rcases hs.eq_or_step with heq | ⟨q, hq, hwithin⟩
          · exact absurd heq hroot
          · rw [if_neg hroot, hq] at hparent
            refine Leads.step hparent (ih q (task.source.lt_of_parent hq) hwithin ?_)
            by_contra hunmapped
            have hunmapped' : task.sourceSide.unmapped s = true :=
              ScriptSide.unmapped_of_within (by simpa using hunmapped) (Leads.single hq)
            rw [hmapped] at hunmapped'
            cases hunmapped'
      · intro hcleared
        rw [unmapped_of_mem_cleared hcleared] at hmapped
        cases hmapped

end Visited

/-! ### The third phase -/

/-- The source node of a work node that stands for nothing. -/
def leftOver? (draft : Draft) (w : Nat) : Option Nat :=
  if draft.partners.contains w then none else draft.work.origin w

/-- The source nodes that are deleted in the third phase. -/
def leftOver (draft : Draft) : List Nat :=
  draft.work.postorder.filterMap (leftOver? draft)

namespace Visited

theorem mem_postorder (h : task.Visited progress) (hw : w ∈ progress.draft.work.postorder) :
    w < progress.draft.work.next ∧ w ≠ WorkTree.top := by
  obtain ⟨htop, hleads⟩ :=
    (WorkTree.mem_postorder h.sound.linked h.climbs h.sound.top_lt).1 hw
  rcases hleads.eq_or_step with heq | ⟨p, hp, -⟩
  · exact absurd heq htop
  · exact ⟨WorkTree.lt_next_of_parent hp, htop⟩

theorem leftOver?_eq_some (h : task.Visited progress) (hw : w < progress.draft.work.next)
    (htop : w ≠ WorkTree.top) : leftOver? progress.draft w = some s ↔
      task.source.Within task.sourceRoot s ∧ w = task.number s ∧
        progress.draft.partners[w]? = none := by
  unfold leftOver?
  cases hpartner : progress.draft.partners[w]? with
  | some t =>
    simp [Std.TreeMap.contains_eq_isSome_getElem?, hpartner]
  | none =>
    have hcontains : progress.draft.partners.contains w = false := by
      simp [Std.TreeMap.contains_eq_isSome_getElem?, hpartner]
    obtain ⟨s', hs', rfl⟩ := h.sound.covered w hw htop hpartner
    simp only [hcontains, Bool.false_eq_true, ↓reduceIte, (h.sound.copy_node s' hs').2,
      Option.some.injEq, and_true]
    constructor
    · rintro rfl
      exact ⟨hs', rfl⟩
    · rintro ⟨-, heq⟩
      exact number_inj hs' heq

/-- **What is left over** are the source nodes that are unpaired and have a paired node below. -/
theorem mem_leftOver (h : task.Visited progress) (hone : task.mapping.OneToOne) :
    s ∈ leftOver progress.draft ↔ task.source.Within task.sourceRoot s ∧
      task.sourceSide.mapped s = false ∧ task.sourceSide.unmapped s = false := by
  have hpartner : ∀ s, task.source.Within task.sourceRoot s →
      (progress.draft.partners[task.number s]? = none ↔ task.sourceSide.mapped s = false) := by
    intro s hs
    rw [← Bool.not_eq_true, sourceSide_mapped hone hs, Option.eq_none_iff_forall_ne_some,
      not_exists]
    refine forall_congr' fun t => not_congr ⟨h.sound.paired hone hs, fun hpair => ?_⟩
    exact (h.sound.link_iff t _).1 (h.sound.keeps t _ ((start_links hone t _).1.2 ⟨s, hpair, rfl⟩))
  rw [leftOver, List.mem_filterMap]
  constructor
  · rintro ⟨w, hw, hkeep⟩
    obtain ⟨hlt, htop⟩ := h.mem_postorder hw
    obtain ⟨hs, rfl, hnone⟩ := (h.leftOver?_eq_some hlt htop).1 hkeep
    refine ⟨hs, (hpartner s hs).1 hnone, ?_⟩
    by_contra hunmapped
    exact h.not_leads_top_of_unmapped hone hs (by simpa using hunmapped)
      ((WorkTree.mem_postorder h.sound.linked h.climbs h.sound.top_lt).1 hw).2
  · rintro ⟨hs, hself, hmapped⟩
    have hw := (WorkTree.mem_postorder h.sound.linked h.climbs h.sound.top_lt).2
      ⟨task.number_ne_top s, h.leads_top_of_mapped hs hmapped⟩
    obtain ⟨hlt, htop⟩ := h.mem_postorder hw
    exact ⟨task.number s, hw, (h.leftOver?_eq_some hlt htop).2
      ⟨hs, rfl, (hpartner s hs).2 hself⟩⟩

theorem nodup_leftOver (h : task.Visited progress) : (leftOver progress.draft).Nodup := by
  refine List.pairwise_filterMap.2 (List.Pairwise.imp_of_mem ?_
    (WorkTree.nodup_postorder h.sound.linked h.climbs h.sound.top_lt))
  rintro w w' hw hw' hne s hs s' hs' rfl
  obtain ⟨hlt, htop⟩ := h.mem_postorder hw
  obtain ⟨hlt', htop'⟩ := h.mem_postorder hw'
  obtain ⟨-, rfl, -⟩ := (h.leftOver?_eq_some hlt htop).1 hs
  obtain ⟨-, rfl, -⟩ := (h.leftOver?_eq_some hlt' htop').1 hs'
  exact hne rfl

/-- The children of a work node that stands for nothing stand for nothing either, since what stands
for a target node stands below the top or below such a node. -/
theorem partner_eq_none_of_parent (h : task.Visited progress)
    (hnone : progress.draft.partners[task.number s]? = none)
    (hup : progress.draft.work.parent w = some (task.number s)) :
    progress.draft.partners[w]? = none := by
  by_contra hsome
  obtain ⟨t, ht⟩ := Option.ne_none_iff_exists'.1 hsome
  have hplace := h.place_targetParent ht hup
  cases hy : task.targetParent t with
  | none =>
    rw [hy] at hplace
    exact task.number_ne_top s (Option.some.inj hplace).symm
  | some v =>
    rw [hy] at hplace
    rw [(h.sound.link_iff v _).1 hplace] at hnone
    cases hnone

/-- One step of the third phase. -/
theorem deleteLeftOver (h : task.Visited progress) {seen rest : List Nat} {state : Progress}
    (hlist : progress.draft.work.postorder = seen ++ w :: rest)
    (hstate : task.Pruning progress (seen.filterMap (leftOver? progress.draft)) state) :
    ∃ next, Task.deleteLeftOver state w = .ok next ∧
      task.Pruning progress ((seen ++ [w]).filterMap (leftOver? progress.draft)) next ∧
      next.edits = state.edits ++ ([w].filterMap (leftOver? progress.draft)).map .delete := by
  obtain ⟨hlt, htop⟩ := h.mem_postorder (w := w) (by rw [hlist]; simp)
  rw [List.filterMap_append]
  cases hpartner : progress.draft.partners[w]? with
  | some t =>
    have hcontains : progress.draft.partners.contains w = true := by
      simp [Std.TreeMap.contains_eq_isSome_getElem?, hpartner]
    have hnone : leftOver? progress.draft w = none := if_pos hcontains
    rw [Task.deleteLeftOver, hstate.partners_eq, if_pos hcontains, List.filterMap_cons_none hnone,
      List.filterMap_nil, List.append_nil]
    exact ⟨state, rfl, hstate, by simp⟩
  | none =>
    obtain ⟨s, hs, rfl⟩ := h.sound.covered w hlt htop hpartner
    have hsome := (h.leftOver?_eq_some hlt htop).2 ⟨hs, rfl, hpartner⟩
    -- The children come first in postorder, so all of them have been deleted.
    have hchildren : ∀ c ∈ progress.draft.work.children (task.number s),
        c ∈ (seen.filterMap (leftOver? progress.draft)).map task.number := by
      intro c hc
      have hseen := WorkTree.child_mem_of_postorder h.sound.linked h.climbs h.sound.top_lt hlist hc
      have hup := h.sound.linked.mem_down.1 hc
      have hclt := WorkTree.lt_next_of_parent hup
      have hctop := h.ne_top_of_parent hup
      have hcnone := h.partner_eq_none_of_parent hpartner hup
      obtain ⟨x, hx, rfl⟩ := h.sound.covered c hclt hctop hcnone
      refine List.mem_map_of_mem (List.mem_filterMap.2 ⟨_, hseen, ?_⟩)
      exact (h.leftOver?_eq_some hclt hctop).2 ⟨hx, rfl, hcnone⟩
    obtain ⟨next, hnext, hprune, hedit⟩ := hstate.leave h.sound.linked
      (hstate.sound.apply_delete hs (hstate.children_eq_nil hchildren))
    rw [List.filterMap_cons_some hsome, List.filterMap_nil]
    refine ⟨next, (deleteLeftOver_eq_ok ?_ (hstate.sound.copy_node s hs).2
      (hstate.sound.copy hs)).2 hnext, hprune, hedit⟩
    rw [hstate.partners_eq, hpartner]

/-- **The third phase** deletes what is left over. -/
theorem exists_reduced (h : task.Visited progress) :
    ∃ reduced, progress.draft.work.postorder.foldlM Task.deleteLeftOver progress = .ok reduced ∧
      task.Pruning progress (leftOver progress.draft) reduced ∧
      reduced.edits = progress.edits ++ (leftOver progress.draft).map .delete := by
  refine foldlM_ok (fun seen state =>
    task.Pruning progress (seen.filterMap (leftOver? progress.draft)) state ∧
      state.edits = progress.edits ++ (seen.filterMap (leftOver? progress.draft)).map .delete)
    ⟨Pruning.start h.toUnderway, by simp⟩ ?_
  rintro seen w rest state hlist ⟨hstate, hnoted⟩
  obtain ⟨next, hnext, hprune, hedit⟩ := h.deleteLeftOver hlist hstate
  refine ⟨next, hnext, hprune, ?_⟩
  rw [hedit, hnoted, List.filterMap_append, List.map_append, List.append_assoc]

end Visited

/-- The work tree consists of nodes that stand for target nodes, with the labels and in the order of
the target. -/
structure Standing (task : Task) (draft : Draft) : Prop where
  label_eq : ∀ t w : Nat, draft.standIns[t]? = some w → draft.work.label w = task.target.label t
  children_eq : ∀ (y : Option Nat) (p : Nat), draft.place? y = some p →
    draft.work.children p = (task.targetChildren y).filterMap (draft.standIns[·]?)

/-- After the third phase only what stands for a target node is left. -/
theorem Visited.standing (h : task.Visited progress) {reduced : Progress}
    (hreduced : task.Pruning progress (leftOver progress.draft) reduced) :
    task.Standing reduced.draft where
  label_eq t w hw := by
    rw [hreduced.standIns_eq] at hw
    obtain ⟨w', p, hw', -, -, hlabel⟩ := h.stands t (h.mem_visits t w hw)
    obtain rfl : w' = w := Option.some.inj (hw'.symm.trans hw)
    rw [hreduced.prunes.label_eq, hlabel]
  children_eq y p hp := by
    rw [place?_congr hreduced.standIns_eq] at hp
    rw [hreduced.prunes.children_eq, hreduced.standIns_eq]
    have hnodup := (h.sound.linked.nodup_down p).filter
      fun c => decide (c ∉ (leftOver progress.draft).map task.number)
    -- The nodes that stand for children are there in their order, and no others are left.
    refine (List.Sublist.eq_of_length_le ?_ (List.subperm_of_subset hnodup ?_).length_le).symm
    · have hkept : ((task.targetChildren y).filterMap (progress.draft.standIns[·]?)).filter
          (fun c => decide (c ∉ (leftOver progress.draft).map task.number)) =
          (task.targetChildren y).filterMap (progress.draft.standIns[·]?) := by
        refine List.filter_eq_self.2 fun c hc => decide_eq_true fun hmem => ?_
        obtain ⟨t, -, ht⟩ := List.mem_filterMap.1 hc
        obtain ⟨s, hs, rfl⟩ := List.mem_map.1 hmem
        obtain ⟨w, hw, hkeep⟩ := List.mem_filterMap.1 hs
        obtain ⟨hlt, htop⟩ := h.mem_postorder hw
        obtain ⟨-, rfl, hnone⟩ := (h.leftOver?_eq_some hlt htop).1 hkeep
        rw [(h.sound.link_iff t _).1 ht] at hnone
        cases hnone
      rw [← hkept]
      exact (h.ordered y p hp).filter _
    · intro c hc
      obtain ⟨hmem, hgone⟩ := List.mem_filter.1 hc
      have hup := h.sound.linked.mem_down.1 hmem
      have htop := h.ne_top_of_parent hup
      have hlt := WorkTree.lt_next_of_parent hup
      cases hpartner : progress.draft.partners[c]? with
      | none =>
        obtain ⟨s, hs, rfl⟩ := h.sound.covered c hlt htop hpartner
        refine absurd (List.mem_map_of_mem ?_) (of_decide_eq_true hgone)
        refine List.mem_filterMap.2 ⟨task.number s, ?_,
          (h.leftOver?_eq_some hlt htop).2 ⟨hs, rfl, hpartner⟩⟩
        exact (WorkTree.mem_postorder h.sound.linked h.climbs h.sound.top_lt).2
          ⟨htop, Leads.step hup (h.leads_top hp)⟩
      | some t =>
        have hstand := (h.sound.link_iff t c).2 hpartner
        obtain rfl := h.sound.place_inj (h.place_targetParent hpartner hup) hp
        exact List.mem_filterMap.2 ⟨t, mem_targetChildren_targetParent
          (h.sound.link_within t c hstand), hstand⟩

end Reshape.Script.Task
