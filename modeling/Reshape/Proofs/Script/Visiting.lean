import Mathlib
import Reshape.Proofs.Script.Clearing
import Reshape.Proofs.Script.Order
import Reshape.Proofs.Sequence.Alignment

/-! # Visiting the target nodes

The second phase of a script visits target nodes, parents before children.  After the visit to a
node, something stands for it, below the place of its parent and with its label, and its children
that stand below it are in order.  Work nodes that stand for no visited node still have the parent
that they had before the phase. -/

namespace Reshape.Script.Task

variable {task : Task} {progress next base : Progress} {visited pending : List Nat} {t w z : Nat}

/-- What stands for a target node from the start on is the copy of a source node. -/
theorem Sound.exists_origin {draft : Draft} (h : task.Sound draft) (hone : task.mapping.OneToOne)
    (hw : task.start.standIns[t]? = some w) :
    ∃ s, task.source.Within task.sourceRoot s ∧ w = task.number s ∧
      draft.work.origin w = some s ∧ draft.copies[s]? = some w := by
  obtain ⟨s, ⟨-, hs, -⟩, rfl⟩ := (start_links hone t w).1.1 hw
  exact ⟨s, hs, rfl, (h.copy_node s hs).2, h.copy hs⟩

/-- A target node has been put in its place: `w` stands for it, below `z`. -/
structure Put (task : Task) (progress : Progress) (t w z : Nat) (next : Progress) : Prop extends
    Underway task next where
  inOrder_eq : next.inOrder = progress.inOrder
  inOrder : task.InOrder next.draft (t :: progress.inOrder)
  links : ∀ x : Nat, next.draft.standIns[x]? =
    if t = x then some w else progress.draft.standIns[x]?
  parent_eq : ∀ c, next.draft.work.parent c =
    if c = w then some z else progress.draft.work.parent c
  label_eq : ∀ c, c ≠ w → next.draft.work.label c = progress.draft.work.label c

/-- A node that stands for a target node can be moved to its slot. -/
theorem exists_put_move (hone : task.mapping.OneToOne) (h : task.Underway progress)
    (horder : task.InOrder progress.draft progress.inOrder)
    (hstart : task.start.standIns[t]? = some w) (hnot : t ∉ progress.inOrder)
    (hz : progress.draft.place? (task.targetParent t) = some z) :
    ∃ s next, progress.draft.work.origin w = some s ∧ progress.draft.copies[s]? = some w ∧
      progress.emit task.target (.move s t (task.targetParent t)
        (InOrder.slot task progress.draft progress.inOrder t w z)) = .ok next ∧
      task.Put progress t w z next ∧ next.draft.work.label w = progress.draft.work.label w ∧
      next.edits.filterMap Entry.ofEdit? = progress.edits.filterMap Entry.ofEdit? := by
  obtain ⟨s, hs, rfl, horigin, hcopy⟩ := h.sound.exists_origin hone hstart
  have hw := h.sound.keeps t _ hstart
  have hin := h.sound.link_within t _ hw
  have hfree : ∀ x : Nat, progress.draft.standIns[x]? = some (task.number s) → x = t :=
    fun x hx => h.sound.standIn_inj hx hw
  obtain ⟨hk, -⟩ := horder.slot_splice h.sound hin hnot hz hfree
  obtain ⟨work, happly, hr, hplaces, hsound⟩ := h.sound.apply_move (t := t) hs hz hk
  obtain ⟨hemit, hunder⟩ := h.emit happly hsound
  have hlinks : ∀ x : Nat, progress.draft.standIns[x]? =
      if t = x then some (task.number s) else progress.draft.standIns[x]? :=
    fun x => (ite_eq_right_iff.2 fun heq => by rw [← heq, hw]).symm
  refine ⟨s, _, horigin, hcopy, hemit,
    ⟨hunder, rfl, ?_, hlinks, hplaces.parent_eq, fun c _ => hr.label_eq c⟩, hr.label_eq _, ?_⟩
  · exact horder.place h.sound hsound hin hnot hz hfree (Or.inr hw) hlinks hplaces
  · simp [Entry.ofEdit?]

/-- A target node that nothing stands for can be inserted in its slot. -/
theorem exists_put_insert (h : task.Underway progress)
    (horder : task.InOrder progress.draft progress.inOrder)
    (hin : task.target.Within task.targetRoot t) (hnone : progress.draft.standIns[t]? = none)
    (hz : progress.draft.place? (task.targetParent t) = some z) :
    ∃ w next, task.create progress t z = .ok next ∧
      task.Put progress t w z next ∧ next.draft.work.label w = task.target.label t ∧
      next.edits.filterMap Entry.ofEdit? =
        progress.edits.filterMap Entry.ofEdit? ++ [.inserted t] := by
  have hnot : t ∉ progress.inOrder := by
    intro hmem
    obtain ⟨u, -, hu, -⟩ := horder.placed t hmem
    rw [hnone] at hu
    cases hu
  have hfree : ∀ x : Nat, progress.draft.standIns[x]? = some progress.draft.work.next → x = t :=
    fun x hx => absurd (h.sound.link_lt x _ hx).1 (Nat.lt_irrefl _)
  have haway : (progress.draft.work.children z).filter (· != progress.draft.work.next) =
      progress.draft.work.children z := by
    refine List.filter_eq_self.2 fun c hc => ?_
    have hlt := WorkTree.lt_next_of_parent (h.sound.linked.mem_down.1 hc)
    exact bne_iff_ne.2 (Nat.ne_of_lt hlt)
  obtain ⟨hk, -⟩ := horder.slot_splice h.sound hin hnot hz hfree
  rw [haway] at hk
  obtain ⟨work, happly, hr, hplaces, hsound⟩ := h.sound.apply_insert hin hnone hz hk
  obtain ⟨hemit, hunder⟩ := h.emit happly hsound
  have hlabel : ∀ c, work.label c =
      if c = progress.draft.work.next then task.target.label t
      else progress.draft.work.label c := by
    intro c
    rw [hr.label_eq, WorkTree.label, WorkTree.node_push]
    split <;> rfl
  refine ⟨progress.draft.work.next, _, (create_eq_ok hz).2 ?_,
    ⟨hunder, rfl, ?_, ?_, hplaces.parent_eq, ?_⟩, ?_, ?_⟩
  · rw [horder.findPosition_eq_slot hz h.sound haway, hemit]
  · exact horder.place h.sound hsound hin hnot hz hfree (Or.inl hnone)
      (Draft.standIns_link _ _ _) hplaces
  · exact Draft.standIns_link _ _ _
  · intro c hc
    exact (hlabel c).trans (if_neg hc)
  · exact (hlabel _).trans (if_pos rfl)
  · simp [Entry.ofEdit?]

/-- The node that stands for a target node takes its label. -/
theorem exists_relabelled (hone : task.mapping.OneToOne) (h : task.Underway progress)
    (hstart : task.start.standIns[t]? = some w) :
    ∃ next, task.relabel progress t w = .ok next ∧
      task.Underway next ∧ next.inOrder = progress.inOrder ∧
      next.draft.standIns = progress.draft.standIns ∧
      (∀ c, next.draft.work.parent c = progress.draft.work.parent c) ∧
      (∀ c, next.draft.work.children c = progress.draft.work.children c) ∧
      next.draft.work.label w = task.target.label t ∧
      (∀ c, c ≠ w → next.draft.work.label c = progress.draft.work.label c) ∧
      next.edits.filterMap Entry.ofEdit? = progress.edits.filterMap Entry.ofEdit? := by
  obtain ⟨s, hs, rfl, horigin, hcopy⟩ := h.sound.exists_origin hone hstart
  rw [relabel_eq_emit horigin hcopy]
  by_cases hlabel : progress.draft.work.label (task.number s) = task.target.label t
  · rw [if_pos (beq_iff_eq.2 hlabel)]
    exact ⟨progress, rfl, h, rfl, rfl, fun _ => rfl, fun _ => rfl, hlabel, fun _ _ => rfl, rfl⟩
  · rw [if_neg fun heq => hlabel (beq_iff_eq.1 heq)]
    obtain ⟨hemit, hunder⟩ := h.emit (h.sound.apply_update hs t)
      (h.sound.setLabel (task.number s) (task.target.label t))
    have hlt := h.sound.number_lt hs
    refine ⟨_, hemit, hunder, rfl, rfl, ?_, ?_, ?_, ?_, ?_⟩
    · exact fun c => WorkTree.parent_setLabel _ _ _ _
    · exact fun c => WorkTree.children_setLabel _ _ _ _
    · exact (WorkTree.label_setLabel hlt _ _).trans (if_pos rfl)
    · exact fun c hc => (WorkTree.label_setLabel hlt _ _).trans (if_neg hc)
    · simp [Entry.ofEdit?]

/-- The node that stands for a target node takes its parent. -/
theorem exists_put_reparent (hone : task.mapping.OneToOne) (h : task.Underway progress)
    (horder : task.InOrder progress.draft progress.inOrder)
    (hstart : task.start.standIns[t]? = some w)
    (hz : progress.draft.place? (task.targetParent t) = some z)
    (hsettled : progress.draft.work.parent w = some z →
      t ∈ progress.inOrder ∨ t = task.targetRoot) :
    ∃ next, task.reparent progress t w z = .ok next ∧ task.Put progress t w z next ∧
      next.draft.work.label w = progress.draft.work.label w ∧
      next.edits.filterMap Entry.ofEdit? = progress.edits.filterMap Entry.ofEdit? := by
  have hw := h.sound.keeps t w hstart
  by_cases hup : progress.draft.work.parent w = some z
  · rw [reparent, if_pos (beq_iff_eq.2 hup)]
    refine ⟨progress, rfl, ⟨h, rfl, ?_, fun x => ?_, fun c => ?_, fun _ _ => rfl⟩, rfl, rfl⟩
    · exact horder.mark h.sound hw hz hup (hsettled hup)
    · exact (ite_eq_right_iff.2 fun heq => by rw [← heq, hw]).symm
    · exact (ite_eq_right_iff.2 fun heq => by rw [heq, hup]).symm
  · have hnot : t ∉ progress.inOrder := by
      intro hmem
      obtain ⟨u, q, hu, hq, huq⟩ := horder.placed t hmem
      obtain rfl : u = w := Option.some.inj (hu.symm.trans hw)
      exact hup (huq.trans (hq.symm.trans hz))
    have haway : (progress.draft.work.children z).filter (· != w) =
        progress.draft.work.children z := by
      refine List.filter_eq_self.2 fun c hc => bne_iff_ne.2 ?_
      rintro rfl
      exact hup (h.sound.linked.mem_down.1 hc)
    obtain ⟨s, next, horigin, hcopy, hemit, hput, hsame, hnoted⟩ :=
      exists_put_move hone h horder hstart hnot hz
    refine ⟨next, (reparent_eq_ok horigin hcopy hz hup).2 ?_, hput, hsame, hnoted⟩
    rw [horder.findPosition_eq_slot hz h.sound haway, hemit]

/-- A node that stands for a target node is adjusted to it. -/
theorem exists_put_adjust (hone : task.mapping.OneToOne) (h : task.Underway progress)
    (horder : task.InOrder progress.draft progress.inOrder)
    (hstart : task.start.standIns[t]? = some w)
    (hz : progress.draft.place? (task.targetParent t) = some z)
    (hsettled : progress.draft.work.parent w = some z →
      t ∈ progress.inOrder ∨ t = task.targetRoot) :
    ∃ next, (task.relabel progress t w >>= fun middle => task.reparent middle t w z) = .ok next ∧
      task.Put progress t w z next ∧ next.draft.work.label w = task.target.label t ∧
      next.edits.filterMap Entry.ofEdit? = progress.edits.filterMap Entry.ofEdit? := by
  obtain ⟨middle, hmiddle, hunder, hmarks, hstand, hparent, hchildren, hlabel, hlabels, hentries⟩ :=
    exists_relabelled hone h hstart
  have horder' : task.InOrder middle.draft middle.inOrder := by
    rw [hmarks]
    exact horder.congr hstand hparent hchildren
  have hz' : middle.draft.place? (task.targetParent t) = some z := by
    rw [place?_congr hstand, hz]
  obtain ⟨next, hnext, hput, hsame, hnoted⟩ := exists_put_reparent hone hunder horder' hstart hz'
    (by rw [hparent, hmarks]; exact hsettled)
  refine ⟨next, by rw [hmiddle, ok_bind, hnext], ⟨hput.toUnderway, ?_, ?_, ?_, ?_, ?_⟩,
    hsame.trans hlabel, hnoted.trans hentries⟩
  · rw [hput.inOrder_eq, hmarks]
  · rw [← hmarks]
    exact hput.inOrder
  · rw [← hstand]
    exact hput.links
  · intro c
    rw [hput.parent_eq, hparent]
  · intro c hc
    rw [hput.label_eq c hc, hlabels c hc]

/-! ### The state after some visits -/

/-- The second phase, which began at `base`, has visited some target nodes.  Some children of them,
which are `pending`, may stand below their parents and not be in order yet. -/
structure Visiting (task : Task) (base : Progress) (visited pending : List Nat)
    (progress : Progress) : Prop extends Underway task progress where
  inOrder : task.InOrder progress.draft progress.inOrder
  done : ∀ t ∈ visited, t ∈ progress.inOrder ∧ ∃ w : Nat, progress.draft.standIns[t]? = some w ∧
    progress.draft.work.label w = task.target.label t
  fresh : ∀ t ∉ visited, progress.draft.standIns[t]? = task.start.standIns[t]?
  unmoved : ∀ w : Nat, (∀ t ∈ visited, progress.draft.standIns[t]? ≠ some w) →
    progress.draft.work.parent w = base.draft.work.parent w
  settled : ∀ v ∈ visited, ∀ d w u : Nat, task.target.parent d = some v →
    progress.draft.standIns[v]? = some w → progress.draft.standIns[d]? = some u →
    progress.draft.work.parent u = some w → d ∈ progress.inOrder ∨ d ∈ pending
  entries : progress.edits.filterMap Entry.ofEdit? = base.edits.filterMap Entry.ofEdit? ++
    (visited.filter fun t => !task.targetSide.mapped t).map .inserted

namespace Visiting

theorem start (h : task.Cleared base) : task.Visiting base [] [] base where
  toUnderway := h.toUnderway
  inOrder := by
    rw [h.inOrder_eq]
    exact InOrder.nil task base.draft
  done t ht := absurd ht List.not_mem_nil
  fresh t _ := by rw [h.standIns_eq]
  unmoved w _ := rfl
  settled v hv := absurd hv List.not_mem_nil
  entries := by simp

/-- A step that moves no node to another parent and changes no link. -/
theorem keep (h : task.Visiting base visited pending progress) {pending' : List Nat}
    (hunder : task.Underway next) (horder : task.InOrder next.draft next.inOrder)
    (hstand : ∀ x : Nat, next.draft.standIns[x]? = progress.draft.standIns[x]?)
    (hparent : ∀ c, next.draft.work.parent c = progress.draft.work.parent c)
    (hlabel : ∀ c, next.draft.work.label c = progress.draft.work.label c)
    (hentries : next.edits.filterMap Entry.ofEdit? = progress.edits.filterMap Entry.ofEdit?)
    (hdone : ∀ t ∈ visited, t ∈ next.inOrder)
    (hpending : ∀ v ∈ visited, ∀ d w u : Nat, task.target.parent d = some v →
      progress.draft.standIns[v]? = some w → progress.draft.standIns[d]? = some u →
      progress.draft.work.parent u = some w → d ∈ progress.inOrder ∨ d ∈ pending →
      d ∈ next.inOrder ∨ d ∈ pending') :
    task.Visiting base visited pending' next where
  toUnderway := hunder
  inOrder := horder
  done t ht := by
    obtain ⟨w, hw, hl⟩ := (h.done t ht).2
    exact ⟨hdone t ht, w, (hstand t).trans hw, (hlabel w).trans hl⟩
  fresh t ht := (hstand t).trans (h.fresh t ht)
  unmoved w hw := by
    rw [hparent]
    exact h.unmoved w fun t ht heq => hw t ht ((hstand t).trans heq)
  settled v hv d w u hd hvw hdu hup := by
    rw [hstand] at hvw hdu
    rw [hparent] at hup
    exact hpending v hv d w u hd hvw hdu hup (h.settled v hv d w u hd hvw hdu hup)
  entries := hentries.trans h.entries

end Visiting

theorem mem_settledChildren {draft : Draft} {d : Nat} : d ∈ task.settledChildren draft w t ↔
    task.target.parent d = some t ∧
      ∃ u : Nat, draft.standIns[d]? = some u ∧ draft.work.parent u = some w := by
  simp only [settledChildren, List.mem_filter, task.target.mem_children, Option.any_eq_true,
    beq_iff_eq]

/-! ### Aligning the children of a node -/

/-- The children of a target node that keep their places when they are aligned. -/
def stays (task : Task) (draft : Draft) (w t : Nat) : List Nat :=
  (Sequence.align (fun c d => draft.partners[c]? == some d) (task.placedChildren draft w t)
    (task.settledChildren draft w t)).map fun (_, j) => (task.settledChildren draft w t).getD j 0

/-- The children that keep their places stand below their parent in the order of the target. -/
theorem Sound.stays_ordered {draft : Draft} (h : task.Sound draft) (w t : Nat) :
    (task.stays draft w t).Sublist (task.settledChildren draft w t) ∧
      ((task.stays draft w t).filterMap (draft.standIns[·]?)).Sublist (draft.work.children w) := by
  have halign := Sequence.isAlignment_align (fun c d => draft.partners[c]? == some d)
    (task.placedChildren draft w t) (task.settledChildren draft w t)
  refine ⟨halign.sublist_right 0, ?_⟩
  have hread : (task.stays draft w t).filterMap (draft.standIns[·]?) =
      (Sequence.align (fun c d => draft.partners[c]? == some d) (task.placedChildren draft w t)
        (task.settledChildren draft w t)).map
          fun p => (task.placedChildren draft w t).getD p.1 0 := by
    rw [stays, List.filterMap_map]
    refine List.filterMap_eq_map_iff_forall_eq_some.2 fun p hp => ?_
    have hrel := halign.related_getD 0 0 hp
    exact (h.link_iff _ _).2 (beq_iff_eq.1 hrel)
  rw [hread]
  exact (halign.sublist_left 0).trans List.filter_sublist

theorem foldl_mark (progress : Progress) (ts : List Nat) :
    ts.foldl Progress.mark progress =
      { progress with inOrder := ts.reverse ++ progress.inOrder } := by
  induction ts generalizing progress with
  | nil => rfl
  | cons t ts ih => rw [List.foldl_cons, ih, List.reverse_cons, List.append_assoc]; rfl

/-- The children that keep their places are marked, and the others are pending. -/
theorem Visiting.stay
    (h : task.Visiting base visited (task.settledChildren progress.draft w t) progress)
    (hw : progress.draft.standIns[t]? = some w)
    (hlater : ∀ d ∈ task.target.children t, d ∉ visited) :
    task.Visiting base visited
      ((task.settledChildren progress.draft w t).filter fun d =>
        !(task.stays progress.draft w t).contains d)
      ((task.stays progress.draft w t).foldl Progress.mark
        (progress.unmark (task.target.children t))) := by
  obtain ⟨hsub, hordered⟩ := h.sound.stays_ordered w t
  have hunmark : ∀ x, x ∈ (progress.unmark (task.target.children t)).inOrder ↔
      x ∈ progress.inOrder ∧ x ∉ task.target.children t := by
    intro x
    simp [Progress.unmark]
  rw [foldl_mark]
  refine h.keep ⟨h.sound, h.recorded⟩ ?_ (fun _ => rfl) (fun _ => rfl) (fun _ => rfl) rfl ?_ ?_
  · have hfewer : task.InOrder progress.draft (progress.unmark (task.target.children t)).inOrder :=
      h.inOrder.mono fun x hx => ((hunmark x).1 hx).1
    refine (hfewer.stay h.sound hw (fun d hd hmem => ((hunmark d).1 hmem).2 hd)
      (hsub.trans List.filter_sublist) (fun d hd => ?_) hordered).mono ?_
    · exact (mem_settledChildren.1 (hsub.subset hd)).2
    · intro x hx
      simpa using hx
  · intro x hx
    refine List.mem_append_right _ ((hunmark x).2 ⟨(h.done x hx).1, fun hmem => ?_⟩)
    exact hlater x hmem hx
  · -- The marks of the other children are gone, so they are pending.
    intro v hv d w' u hd hvw hdu hup hor
    by_cases hstay : d ∈ task.stays progress.draft w t
    · exact Or.inl (List.mem_append_left _ (List.mem_reverse.2 hstay))
    · by_cases hdt : v = t
      · subst hdt
        obtain rfl : w' = w := Option.some.inj (hvw.symm.trans hw)
        refine Or.inr (List.mem_filter.2 ⟨mem_settledChildren.2 ⟨hd, u, hdu, hup⟩, ?_⟩)
        simpa using hstay
      · have hnot : task.target.parent d ≠ some t := fun heq =>
          hdt (Option.some.inj (hd.symm.trans heq))
        rcases hor with hor | hor
        · refine Or.inl (List.mem_append_right _ ((hunmark d).2 ⟨hor, ?_⟩))
          exact fun hmem => hnot (task.target.mem_children.1 hmem)
        · exact absurd (mem_settledChildren.1 hor).1 hnot

/-- A pending child is moved to its slot. -/
theorem Visiting.moveChild (hone : task.mapping.OneToOne)
    (h : task.Visiting base visited pending progress) (hw : progress.draft.standIns[t]? = some w)
    {d : Nat} (hd : d ∈ task.settledChildren progress.draft w t) (hlater : d ∉ visited)
    (hnot : d ∉ progress.inOrder) :
    ∃ next, task.moveChild t w progress d = .ok next ∧ task.Visiting base visited pending next ∧
      next.inOrder = d :: progress.inOrder ∧
      (∀ x : Nat, next.draft.standIns[x]? = progress.draft.standIns[x]?) ∧
      ∀ c, next.draft.work.parent c = progress.draft.work.parent c := by
  obtain ⟨hdt, u, hu, hup⟩ := mem_settledChildren.1 hd
  have hstart := (h.fresh d hlater).symm.trans hu
  have hplace : progress.draft.place? (some t) = some w := hw
  have hparent := ((h.sound.mem_targetChildren hplace).1 (task.target.mem_children.2 hdt)).2
  rw [← hparent] at hplace
  obtain ⟨s, moved, horigin, hcopy, hemit, hput, hlabel, hentries⟩ :=
    exists_put_move hone h.toUnderway h.inOrder hstart hnot hplace
  -- The child was below `w` before, so the move changes nothing but its position there.
  have hstand : ∀ x : Nat, moved.draft.standIns[x]? = progress.draft.standIns[x]? :=
    fun x => (hput.links x).trans (ite_eq_right_iff.2 fun heq => by rw [← heq, hu])
  have hparents : ∀ c, moved.draft.work.parent c = progress.draft.work.parent c :=
    fun c => (hput.parent_eq c).trans (ite_eq_right_iff.2 fun heq => by rw [heq, hup])
  have hlabels : ∀ c, moved.draft.work.label c = progress.draft.work.label c := by
    intro c
    by_cases hc : c = u
    · rw [hc, hlabel]
    · exact hput.label_eq c hc
  have hmarks : (moved.mark d).inOrder = d :: progress.inOrder := by
    rw [Progress.mark, hput.inOrder_eq]
  refine ⟨moved.mark d, ?_, ?_, hmarks, hstand, hparents⟩
  · have hposition := h.inOrder.findPosition_detach_eq_slot hplace h.sound hnot
      fun x hx => h.sound.standIn_inj hx hu
    refine (moveChild_eq_ok hu horigin hcopy hw).2 ⟨moved, ?_, rfl⟩
    rw [hposition, ← hparent, hemit]
  · refine h.keep ⟨hput.sound, hput.recorded⟩ ?_ hstand hparents hlabels hentries ?_ ?_
    · rw [hmarks]
      exact hput.inOrder
    · intro x hx
      rw [hmarks]
      exact List.mem_cons_of_mem _ (h.done x hx).1
    · intro v _ x w' u' _ _ _ _ hor
      rw [hmarks]
      exact hor.imp_left (List.mem_cons_of_mem _)

/-- All pending children are moved to their slots. -/
theorem Visiting.moveChildren (hone : task.mapping.OneToOne)
    (h : task.Visiting base visited pending progress) (hw : progress.draft.standIns[t]? = some w)
    (hpending : ∀ d ∈ pending, d ∈ task.settledChildren progress.draft w t ∧ d ∉ visited ∧
      d ∉ progress.inOrder) (hnodup : pending.Nodup) :
    ∃ next, pending.foldlM (task.moveChild t w) progress = .ok next ∧
      task.Visiting base visited [] next := by
  -- The loop changes nothing but the marks and the places below one parent.
  have hloop : ∃ final, pending.foldlM (task.moveChild t w) progress = .ok final ∧
      task.Visiting base visited pending final ∧
      final.inOrder = pending.reverse ++ progress.inOrder ∧
      (∀ x : Nat, final.draft.standIns[x]? = progress.draft.standIns[x]?) ∧
      ∀ c, final.draft.work.parent c = progress.draft.work.parent c := by
    refine foldlM_ok (fun seen state => task.Visiting base visited pending state ∧
      state.inOrder = seen.reverse ++ progress.inOrder ∧
      (∀ x : Nat, state.draft.standIns[x]? = progress.draft.standIns[x]?) ∧
      ∀ c, state.draft.work.parent c = progress.draft.work.parent c)
      ⟨h, rfl, fun _ => rfl, fun _ => rfl⟩ ?_
    rintro seen d rest state hlist ⟨hvis, hmarks, hstand, hparent⟩
    obtain ⟨hset, hlater, hnot⟩ := hpending d (by rw [hlist]; simp)
    have hset' : d ∈ task.settledChildren state.draft w t := by
      obtain ⟨hdt, u, hu, hup⟩ := mem_settledChildren.1 hset
      exact mem_settledChildren.2 ⟨hdt, u, (hstand d).trans hu, (hparent u).trans hup⟩
    have hnot' : d ∉ state.inOrder := by
      rw [hmarks, List.mem_append, List.mem_reverse, not_or]
      refine ⟨fun hseen => ?_, hnot⟩
      rw [hlist] at hnodup
      exact (List.nodup_append.1 hnodup).2.2 d hseen d (by simp) rfl
    obtain ⟨next, hnext, hvis', hmarks', hstand', hparent'⟩ :=
      hvis.moveChild hone ((hstand t).trans hw) hset' hlater hnot'
    refine ⟨next, hnext, hvis', ?_, fun x => (hstand' x).trans (hstand x),
      fun c => (hparent' c).trans (hparent c)⟩
    rw [hmarks', hmarks, List.reverse_append]
    rfl
  obtain ⟨final, hfinal, hvisiting, hmarks, -⟩ := hloop
  refine ⟨final, hfinal, hvisiting.keep hvisiting.toUnderway hvisiting.inOrder (fun _ => rfl)
    (fun _ => rfl) (fun _ => rfl) rfl (fun x hx => (hvisiting.done x hx).1) ?_⟩
  intro v _ d w' u _ _ _ _ hor
  refine Or.inl (hor.elim id fun hd => ?_)
  rw [hmarks]
  exact List.mem_append_left _ (List.mem_reverse.2 hd)

/-- **Aligning the children of a visited node** puts those that stand below it in order. -/
theorem Visiting.alignChildren (hone : task.mapping.OneToOne)
    (h : task.Visiting base visited (task.settledChildren progress.draft w t) progress)
    (hw : progress.draft.standIns[t]? = some w)
    (hlater : ∀ d ∈ task.target.children t, d ∉ visited) :
    ∃ next, task.alignChildren progress w t = .ok next ∧ task.Visiting base visited [] next := by
  refine (h.stay hw hlater).moveChildren hone (t := t) (w := w) ?_ ?_ ?_
  · rw [foldl_mark]
    exact hw
  · intro d hd
    obtain ⟨hset, hstay⟩ := List.mem_filter.1 hd
    have hchild := task.target.mem_children.2 (mem_settledChildren.1 hset).1
    rw [foldl_mark]
    refine ⟨hset, hlater d hchild, ?_⟩
    rw [List.mem_append, List.mem_reverse, not_or]
    exact ⟨by simpa using hstay, by simp [Progress.unmark, hchild]⟩
  · exact ((task.target.nodup_children t).filter _).filter _

/-! ### The visit to a node -/

theorem visit_eq (hz : progress.draft.place? (task.targetParent t) = some z)
    (hnext : task.bring progress t z = .ok next) (hw : next.draft.standIns[t]? = some w) :
    task.visit progress t = task.alignChildren (next.mark t) w t := by
  simp only [visit, hz, hnext, ok_bind, hw]

theorem Visiting.exists_put (hone : task.mapping.OneToOne)
    (h : task.Visiting base visited [] progress) (hin : task.target.Within task.targetRoot t)
    (hnew : t ∉ visited) (hz : progress.draft.place? (task.targetParent t) = some z)
    (hparent : ∀ v, task.targetParent t = some v → v ∈ visited) :
    ∃ w next, task.bring progress t z = .ok next ∧ task.Put progress t w z next ∧
      next.draft.work.label w = task.target.label t ∧
      next.edits.filterMap Entry.ofEdit? = progress.edits.filterMap Entry.ofEdit? ++
        ([t].filter fun t => !task.targetSide.mapped t).map .inserted := by
  have hmapped : task.targetSide.mapped t = progress.draft.standIns[t]?.isSome := by
    rw [h.fresh t hnew]
    rfl
  unfold bring
  cases hstand : progress.draft.standIns[t]? with
  | some w =>
    have hsettled : progress.draft.work.parent w = some z →
        t ∈ progress.inOrder ∨ t = task.targetRoot := by
      intro hup
      by_cases hroot : t = task.targetRoot
      · exact Or.inr hroot
      · have htarget : task.targetParent t = task.target.parent t := if_neg hroot
        rcases hin.eq_or_step with heq | ⟨v, hv, -⟩
        · exact absurd heq hroot
        · rw [htarget, hv] at hz
          have hor := h.settled v (hparent v (htarget.trans hv)) t z w hv hz hstand hup
          exact Or.inl (hor.resolve_right List.not_mem_nil)
    obtain ⟨next, hnext, hput, hlabel, hentries⟩ := exists_put_adjust hone h.toUnderway h.inOrder
      ((h.fresh t hnew).symm.trans hstand) hz hsettled
    refine ⟨w, next, hnext, hput, hlabel, ?_⟩
    rw [hentries, List.filter_cons_of_neg (by simp [hmapped, hstand])]
    simp
  | none =>
    obtain ⟨w, next, hnext, hput, hlabel, hentries⟩ :=
      exists_put_insert h.toUnderway h.inOrder hin hstand hz
    refine ⟨w, next, hnext, hput, hlabel, ?_⟩
    rw [hentries, List.filter_cons_of_pos (by simp [hmapped, hstand])]
    rfl

/-- A node that has been put in its place counts as visited, with its children pending. -/
theorem Visiting.put (h : task.Visiting base visited [] progress) (hnew : t ∉ visited)
    (hput : task.Put progress t w z next) (hlabel : next.draft.work.label w = task.target.label t)
    (hentries : next.edits.filterMap Entry.ofEdit? = progress.edits.filterMap Entry.ofEdit? ++
      ([t].filter fun t => !task.targetSide.mapped t).map .inserted) :
    task.Visiting base (visited ++ [t]) (task.settledChildren next.draft w t) (next.mark t) := by
  have hmarks : (next.mark t).inOrder = t :: progress.inOrder := by
    rw [Progress.mark, hput.inOrder_eq]
  have hself : next.draft.standIns[t]? = some w := by rw [hput.links, if_pos rfl]
  have hother : ∀ x : Nat, x ≠ t → next.draft.standIns[x]? = progress.draft.standIns[x]? :=
    fun x hx => by rw [hput.links, if_neg fun heq => hx heq.symm]
  have hne : ∀ x u : Nat, x ≠ t → next.draft.standIns[x]? = some u → u ≠ w := by
    rintro x u hx hu rfl
    exact hx (hput.sound.standIn_inj hu hself)
  refine ⟨⟨hput.sound, hput.recorded⟩, ?_, ?_, ?_, ?_, ?_, ?_⟩
  · rw [hmarks]
    exact hput.inOrder
  · intro x hx
    rw [hmarks]
    rcases List.mem_append.1 hx with hx | hx
    · have hxt : x ≠ t := fun heq => hnew (heq ▸ hx)
      obtain ⟨hmark, u, hu, hl⟩ := h.done x hx
      have hu' := (hother x hxt).trans hu
      exact ⟨List.mem_cons_of_mem _ hmark, u, hu', (hput.label_eq u (hne x u hxt hu')).trans hl⟩
    · obtain rfl := List.mem_singleton.1 hx
      exact ⟨List.mem_cons_self .., w, hself, hlabel⟩
  · intro x hx
    rw [List.mem_append, List.mem_singleton, not_or] at hx
    exact (hother x hx.2).trans (h.fresh x hx.1)
  · intro u hu
    have huw : u ≠ w := fun heq => hu t (by simp) (heq ▸ hself)
    have hkept : (next.mark t).draft.work.parent u = progress.draft.work.parent u :=
      (hput.parent_eq u).trans (if_neg huw)
    rw [hkept]
    refine h.unmoved u fun x hx heq => hu x (List.mem_append_left _ hx) ?_
    exact (hother x fun heq => hnew (heq ▸ hx)).trans heq
  · -- Only `t` itself changed its parent, and only its children can be out of order.
    intro v hv d w' u hd hvw hdu hup
    rw [hmarks]
    rcases List.mem_append.1 hv with hv | hv
    · by_cases hdt : d = t
      · exact Or.inl (hdt ▸ List.mem_cons_self ..)
      · have hup' : progress.draft.work.parent u = some w' := by
          rw [← hup]
          exact ((hput.parent_eq u).trans (if_neg (hne d u hdt hdu))).symm
        have hvt : v ≠ t := fun heq => hnew (heq ▸ hv)
        have hor := h.settled v hv d w' u hd ((hother v hvt).symm.trans hvw)
          ((hother d hdt).symm.trans hdu) hup'
        exact Or.inl (List.mem_cons_of_mem _ (hor.resolve_right List.not_mem_nil))
    · obtain rfl := List.mem_singleton.1 hv
      obtain rfl : w = w' := Option.some.inj (hself.symm.trans hvw)
      exact Or.inr (mem_settledChildren.2 ⟨hd, u, hdu, hup⟩)
  · have hnoted : (next.mark t).edits = next.edits := rfl
    rw [hnoted, hentries, h.entries, List.filter_append, List.map_append, List.append_assoc]

/-- **One visit.** -/
theorem Visiting.visit (hone : task.mapping.OneToOne)
    (h : task.Visiting base visited [] progress) (hin : task.target.Within task.targetRoot t)
    (hnew : t ∉ visited) (hlater : ∀ d ∈ task.target.children t, d ∉ visited)
    (hparent : ∀ v, task.targetParent t = some v → v ∈ visited) :
    ∃ next, task.visit progress t = .ok next ∧ task.Visiting base (visited ++ [t]) [] next := by
  obtain ⟨z, hz⟩ : ∃ z, progress.draft.place? (task.targetParent t) = some z := by
    cases hy : task.targetParent t with
    | none => exact ⟨_, rfl⟩
    | some v =>
      obtain ⟨-, w, hw, -⟩ := h.done v (hparent v hy)
      exact ⟨w, hw⟩
  obtain ⟨w, placed, hbring, hput, hlabel, hentries⟩ := h.exists_put hone hin hnew hz hparent
  have hself : placed.draft.standIns[t]? = some w := by rw [hput.links, if_pos rfl]
  rw [visit_eq hz hbring hself]
  refine (h.put hnew hput hlabel hentries).alignChildren hone hself fun d hd hmem => ?_
  rcases List.mem_append.1 hmem with hmem | hmem
  · exact hlater d hd hmem
  · exact absurd (task.target.lt_of_mem_children hd) (by simp [List.mem_singleton.1 hmem])

/-- The target nodes that are visited. -/
def visits (task : Task) : List Nat :=
  (task.target.preorder task.targetRoot).filter fun t => !task.targetSide.carried t

theorem mem_visits : t ∈ task.visits ↔
    task.target.Within task.targetRoot t ∧ task.targetSide.carried t = false := by
  simp [visits, task.target.mem_preorder]

/-- The parent of a node that is visited is visited. -/
theorem targetParent_mem_visits {v : Nat} (ht : t ∈ task.visits)
    (hv : task.targetParent t = some v) :
    v ∈ task.visits ∧ task.target.parent t = some v := by
  obtain ⟨hin, hcarried⟩ := mem_visits.1 ht
  unfold targetParent at hv
  split at hv
  · cases hv
  · rename_i hroot
    rcases hin.eq_or_step with heq | ⟨q, hq, hwithin⟩
    · exact absurd heq hroot
    · obtain rfl : q = v := Option.some.inj (hq.symm.trans hv)
      refine ⟨mem_visits.2 ⟨hwithin, ?_⟩, hq⟩
      by_contra hpc
      have hcarry : task.targetSide.carried t = true :=
        ScriptSide.carried_of_parent hwithin hq (by simpa using hpc)
      rw [hcarried] at hcarry
      cases hcarry

/-- When a node is visited, its parent has been visited, and neither the node nor its children
have. -/
theorem visits_split {seen rest : List Nat} (h : task.visits = seen ++ t :: rest) :
    task.target.Within task.targetRoot t ∧ t ∉ seen ∧ (∀ d ∈ task.target.children t, d ∉ seen) ∧
      ∀ v, task.targetParent t = some v → v ∈ seen := by
  obtain ⟨seen', rest', hpre, rfl⟩ := filter_split h
  have ht : t ∈ task.visits := by rw [h]; simp
  have hnodup := hpre ▸ task.target.nodup_preorder task.targetRoot
  refine ⟨(mem_visits.1 ht).1, fun hmem => ?_, fun d hd hmem => ?_, fun v hv => ?_⟩
  · exact (List.nodup_append.1 hnodup).2.2 t (List.mem_filter.1 hmem).1 t (by simp) rfl
  · exact task.target.child_notMem_of_preorder hpre (task.target.mem_children.1 hd)
      (List.mem_filter.1 hmem).1
  · obtain ⟨hvisits, hparent⟩ := targetParent_mem_visits ht hv
    have hne : t ≠ task.targetRoot := by
      rintro rfl
      unfold targetParent at hv
      simp at hv
    obtain ⟨q, hq, hq'⟩ := task.target.parent_mem_of_preorder hpre hne
    obtain rfl : q = v := Option.some.inj (hq'.symm.trans hparent)
    exact List.mem_filter.2 ⟨hq, (List.mem_filter.1 hvisits).2⟩

/-- **The second phase** visits every target node that does not arrive from another file. -/
theorem exists_visiting (hone : task.mapping.OneToOne) (h : task.Cleared base) :
    ∃ progress, task.visits.foldlM task.visit base = .ok progress ∧
      task.Visiting base task.visits [] progress := by
  refine foldlM_ok (fun seen progress => task.Visiting base seen [] progress)
    (Visiting.start h) fun seen t rest progress hlist hvis => ?_
  obtain ⟨hin, hnew, hlater, hparent⟩ := visits_split hlist
  exact hvis.visit hone hin hnew hlater hparent

end Reshape.Script.Task
