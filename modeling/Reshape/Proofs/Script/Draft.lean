import Mathlib
import Reshape.Proofs.Loop
import Reshape.Proofs.Script.Start

/-! # Sound drafts

A draft is sound for a task if its work tree is a forest below the top, its links go both ways, and
every node other than the top copies a source node or stands for a target node.  Each kind of edit
can be performed on a sound draft under a condition on the place it goes to, and the result is sound
again.  The lemmas say in which way the work tree changes, so that nothing has to look into an edit
after this module. -/

namespace Reshape

namespace WorkTree

variable {work : WorkTree}

theorem node_setLabel (work : WorkTree) (w c : Nat) (label : String) :
    (work.setLabel w label).node c =
      if w = c ∧ c < work.next then { work.node c with label } else work.node c :=
  node_modify work w c _

@[simp] theorem next_setLabel (work : WorkTree) (w : Nat) (label : String) :
    (work.setLabel w label).next = work.next :=
  next_modify work w _

@[simp] theorem parent_setLabel (work : WorkTree) (w c : Nat) (label : String) :
    (work.setLabel w label).parent c = work.parent c := by
  rw [parent, node_setLabel]
  split <;> rfl

@[simp] theorem children_setLabel (work : WorkTree) (w c : Nat) (label : String) :
    (work.setLabel w label).children c = work.children c := by
  rw [children, node_setLabel]
  split <;> rfl

@[simp] theorem origin_setLabel (work : WorkTree) (w c : Nat) (label : String) :
    (work.setLabel w label).origin c = work.origin c := by
  rw [origin, node_setLabel]
  split <;> rfl

@[simp] theorem kind_setLabel (work : WorkTree) (w c : Nat) (label : String) :
    ((work.setLabel w label).node c).kind = (work.node c).kind := by
  rw [node_setLabel]
  split <;> rfl

theorem label_setLabel {w : Nat} (hw : w < work.next) (c : Nat) (label : String) :
    (work.setLabel w label).label c = if c = w then label else work.label c := by
  rw [WorkTree.label, node_setLabel]
  by_cases hc : c = w
  · simp [hc, hw]
  · have hc' : ¬ w = c := fun h => hc h.symm
    simp [hc, hc', WorkTree.label]

end WorkTree

namespace Script.Task

variable {task : Task} {draft : Draft} {s t w p k : Nat} {parent : Option Nat}

/-- What holds of the drafts of a task at every time. -/
structure Sound (task : Task) (draft : Draft) : Prop where
  linked : draft.work.Linked
  top_parent : draft.work.parent WorkTree.top = none
  copies_eq : draft.copies = task.start.copies
  next_le : task.start.work.next ≤ draft.work.next
  copy_node : ∀ s, task.source.Within task.sourceRoot s →
    (draft.work.node (task.number s)).kind = task.source.kind s ∧
      draft.work.origin (task.number s) = some s
  link_iff : ∀ t w : Nat, draft.standIns[t]? = some w ↔ draft.partners[w]? = some t
  link_lt : ∀ t w : Nat, draft.standIns[t]? = some w → w < draft.work.next ∧ w ≠ WorkTree.top
  link_within : ∀ t w : Nat, draft.standIns[t]? = some w → task.target.Within task.targetRoot t
  keeps : ∀ t w : Nat, task.start.standIns[t]? = some w → draft.standIns[t]? = some w
  new_node : ∀ t w : Nat, draft.standIns[t]? = some w → task.start.standIns[t]? = none →
    task.start.work.next ≤ w ∧ (draft.work.node w).kind = task.target.kind t
  covered : ∀ w : Nat, w < draft.work.next → w ≠ WorkTree.top → draft.partners[w]? = none →
    ∃ s, task.source.Within task.sourceRoot s ∧ w = task.number s

/-- A draft has grown by new nodes, which stand for target nodes that nothing stood for. -/
structure Grown (task : Task) (new : Nat → Nat → Prop) (draft draft' : Draft) : Prop where
  linked : draft'.work.Linked
  top_parent : draft'.work.parent WorkTree.top = none
  copies_eq : draft'.copies = draft.copies
  next_le : draft.work.next ≤ draft'.work.next
  old_node : ∀ w, w < draft.work.next → (draft'.work.node w).kind = (draft.work.node w).kind ∧
    draft'.work.origin w = draft.work.origin w
  stands_iff : ∀ t w : Nat, draft'.standIns[t]? = some w ↔ new t w ∨ draft.standIns[t]? = some w
  partner_iff : ∀ t w : Nat, draft'.partners[w]? = some t ↔ new t w ∨ draft.partners[w]? = some t
  new_within : ∀ t w, new t w → task.target.Within task.targetRoot t
  new_node : ∀ t w, new t w → draft.work.next ≤ w ∧ w < draft'.work.next ∧
    (draft'.work.node w).kind = task.target.kind t
  covered : ∀ w, draft.work.next ≤ w → w < draft'.work.next → ∃ t, new t w

theorem sound_start (hone : task.mapping.OneToOne) : task.Sound task.start where
  linked := task.start_linked
  top_parent := task.start_parent_top
  copies_eq := rfl
  next_le := Nat.le_refl _
  copy_node s hs := ⟨(start_node hs).1, (start_node hs).2.2⟩
  link_iff t w := (start_links hone t w).1.trans (start_links hone t w).2.symm
  link_lt t w h := by
    obtain ⟨s, ⟨-, hs, -⟩, rfl⟩ := (start_links hone t w).1.1 h
    exact ⟨number_lt_next hs, task.number_ne_top s⟩
  link_within t w h := by
    obtain ⟨s, ⟨-, -, ht⟩, -⟩ := (start_links hone t w).1.1 h
    exact ht
  keeps _ _ h := h
  new_node t w h h' := by
    rw [h] at h'
    cases h'
  covered w hw htop _ := exists_number hw htop

namespace Sound

theorem top_lt (h : task.Sound draft) : WorkTree.top < draft.work.next := by
  have hle := h.next_le
  rw [start_next] at hle
  exact Nat.lt_of_lt_of_le (by rw [WorkTree.top]; omega) hle

theorem number_lt (h : task.Sound draft) (hs : task.source.Within task.sourceRoot s) :
    task.number s < draft.work.next :=
  Nat.lt_of_lt_of_le (number_lt_next hs) h.next_le

theorem copy (h : task.Sound draft) (hs : task.source.Within task.sourceRoot s) :
    draft.copies[s]? = some (task.number s) := by
  rw [h.copies_eq]
  exact start_copies.2 ⟨hs, rfl⟩

theorem standIn_inj (h : task.Sound draft) {t t' : Nat} (ht : draft.standIns[t]? = some w)
    (ht' : draft.standIns[t']? = some w) : t = t' :=
  Option.some.inj (((h.link_iff t w).1 ht).symm.trans ((h.link_iff t' w).1 ht'))

theorem place_lt (h : task.Sound draft) (hp : draft.place? parent = some p) :
    p < draft.work.next := by
  cases parent with
  | none =>
    obtain rfl : WorkTree.top = p := Option.some.inj hp
    exact h.top_lt
  | some t => exact (h.link_lt t p hp).1

theorem place_inj (h : task.Sound draft) {parent' : Option Nat} (hp : draft.place? parent = some p)
    (hp' : draft.place? parent' = some p) : parent = parent' := by
  cases parent with
  | none =>
    cases parent' with
    | none => rfl
    | some t => exact absurd (Option.some.inj hp).symm (h.link_lt t p hp').2
  | some t =>
    cases parent' with
    | none => exact absurd (Option.some.inj hp').symm (h.link_lt t p hp).2
    | some t' => rw [h.standIn_inj hp hp']

/-- Copies stand for the nodes that their source nodes are paired with, and for no others. -/
theorem paired (h : task.Sound draft) (hone : task.mapping.OneToOne)
    (hs : task.source.Within task.sourceRoot s) (ht : draft.partners[task.number s]? = some t) :
    task.Paired s t := by
  have hstand := (h.link_iff t _).2 ht
  cases hstart : task.start.standIns[t]? with
  | none =>
    exact absurd (h.new_node t _ hstand hstart).1 (Nat.not_le.2 (number_lt_next hs))
  | some w =>
    obtain ⟨s', hpair, rfl⟩ := (start_links hone t w).1.1 hstart
    have heq := Option.some.inj ((h.keeps t _ hstart).symm.trans hstand)
    obtain rfl := number_inj hpair.2.1 heq
    exact hpair

/-- Rearranging the work tree keeps a draft sound. -/
theorem rearrange (h : task.Sound draft) {work : WorkTree} (hr : draft.work.Rearranges work)
    (hlinked : work.Linked) (htop : work.parent WorkTree.top = none) :
    task.Sound { draft with work } where
  linked := hlinked
  top_parent := htop
  copies_eq := h.copies_eq
  next_le := hr.next_eq ▸ h.next_le
  copy_node s hs := by
    rw [hr.kind_eq, hr.origin_eq]
    exact h.copy_node s hs
  link_iff := h.link_iff
  link_lt t w ht := by
    rw [hr.next_eq]
    exact h.link_lt t w ht
  link_within := h.link_within
  keeps := h.keeps
  new_node t w ht hstart := by
    rw [hr.kind_eq]
    exact h.new_node t w ht hstart
  covered w hw := h.covered w (hr.next_eq ▸ hw)

/-! ### Edits that only rearrange -/

theorem detach (h : task.Sound draft) (w : Nat) :
    task.Sound { draft with work := draft.work.detach w } := by
  have hprune := (WorkTree.Prunes.nil draft.work).detach h.linked w
  refine h.rearrange hprune.toRearranges (hprune.linked h.linked) ?_
  rw [hprune.parent_eq, h.top_parent]
  split <;> rfl

theorem apply_delete (h : task.Sound draft) (hs : task.source.Within task.sourceRoot s)
    (hleaf : draft.work.children (task.number s) = []) :
    draft.apply task.target (.delete s) =
      .ok { draft with work := draft.work.detach (task.number s) } := by
  simp only [Draft.apply, Draft.copy, h.copy hs, ok_bind, hleaf, List.isEmpty_nil, ↓reduceIte]
  rfl

theorem apply_moveOut (h : task.Sound draft) (hs : task.source.Within task.sourceRoot s)
    (file : Path) (justification : Option Nat) :
    draft.apply task.target (.moveOut s file justification) =
      .ok { draft with work := draft.work.detach (task.number s) } := by
  simp only [Draft.apply, Draft.copy, h.copy hs, ok_bind]
  rfl

theorem apply_move (h : task.Sound draft) (hs : task.source.Within task.sourceRoot s)
    (hp : draft.place? parent = some p)
    (hk : k ≤ ((draft.work.children p).filter (· != task.number s)).length) :
    ∃ work, draft.apply task.target (.move s t parent k) = .ok { draft with work } ∧
      draft.work.Rearranges work ∧ draft.work.Places work (task.number s) p k ∧
      task.Sound { draft with work } := by
  obtain ⟨work, hattach, hr, hplaces⟩ :=
    WorkTree.exists_move h.linked (h.place_lt hp) (h.number_lt hs) hk
  refine ⟨work, ?_, hr, hplaces, h.rearrange hr (hplaces.linked h.linked) ?_⟩
  · simp only [Draft.apply, Draft.copy, h.copy hs, ok_bind, Draft.place, hp, Draft.attach, hattach]
  · rw [hplaces.parent_eq, if_neg (task.number_ne_top s).symm, h.top_parent]

theorem apply_update (h : task.Sound draft) (hs : task.source.Within task.sourceRoot s) (t : Nat) :
    draft.apply task.target (.update s t) =
      .ok { draft with work := draft.work.setLabel (task.number s) (task.target.label t) } := by
  simp only [Draft.apply, Draft.copy, h.copy hs, ok_bind]
  rfl

theorem setLabel (h : task.Sound draft) (w : Nat) (label : String) :
    task.Sound { draft with work := draft.work.setLabel w label } where
  linked := by
    refine ⟨fun {c p} => ?_, fun p => ?_⟩
    · rw [WorkTree.children_setLabel, WorkTree.parent_setLabel]
      exact h.linked.mem_down
    · rw [WorkTree.children_setLabel]
      exact h.linked.nodup_down p
  top_parent := by
    rw [WorkTree.parent_setLabel]
    exact h.top_parent
  copies_eq := h.copies_eq
  next_le := by
    rw [WorkTree.next_setLabel]
    exact h.next_le
  copy_node s hs := by
    rw [WorkTree.kind_setLabel, WorkTree.origin_setLabel]
    exact h.copy_node s hs
  link_iff := h.link_iff
  link_lt t w ht := by
    rw [WorkTree.next_setLabel]
    exact h.link_lt t w ht
  link_within := h.link_within
  keeps := h.keeps
  new_node t w ht hstart := by
    rw [WorkTree.kind_setLabel]
    exact h.new_node t w ht hstart
  covered w hw := h.covered w (by rwa [WorkTree.next_setLabel] at hw)

/-! ### Edits that create nodes -/

theorem grow (h : task.Sound draft) {draft' : Draft} {new : Nat → Nat → Prop}
    (hgrown : task.Grown new draft draft') : task.Sound draft' where
  linked := hgrown.linked
  top_parent := hgrown.top_parent
  copies_eq := hgrown.copies_eq.trans h.copies_eq
  next_le := Nat.le_trans h.next_le hgrown.next_le
  copy_node s hs := by
    obtain ⟨hkind, horigin⟩ := hgrown.old_node _ (h.number_lt hs)
    rw [hkind, horigin]
    exact h.copy_node s hs
  link_iff t w := by
    rw [hgrown.stands_iff, hgrown.partner_iff, h.link_iff]
  link_lt t w ht := by
    rcases (hgrown.stands_iff t w).1 ht with hnew | hold
    · obtain ⟨hle, hlt, -⟩ := hgrown.new_node t w hnew
      exact ⟨hlt, Nat.ne_of_gt (Nat.lt_of_lt_of_le h.top_lt hle)⟩
    · obtain ⟨hlt, htop⟩ := h.link_lt t w hold
      exact ⟨Nat.lt_of_lt_of_le hlt hgrown.next_le, htop⟩
  link_within t w ht := by
    rcases (hgrown.stands_iff t w).1 ht with hnew | hold
    · exact hgrown.new_within t w hnew
    · exact h.link_within t w hold
  keeps t w ht := (hgrown.stands_iff t w).2 (Or.inr (h.keeps t w ht))
  new_node t w ht hstart := by
    rcases (hgrown.stands_iff t w).1 ht with hnew | hold
    · obtain ⟨hle, -, hkind⟩ := hgrown.new_node t w hnew
      exact ⟨Nat.le_trans h.next_le hle, hkind⟩
    · rw [(hgrown.old_node w (h.link_lt t w hold).1).1]
      exact h.new_node t w hold hstart
  covered w hw htop hpartner := by
    -- A new node stands for something, so what stands for nothing is an old node.
    have hnone : ∀ t, ¬ (new t w ∨ draft.partners[w]? = some t) := fun t ht => by
      rw [(hgrown.partner_iff t w).2 ht] at hpartner
      cases hpartner
    by_cases hlt : w < draft.work.next
    · exact h.covered w hlt htop
        (Option.eq_none_iff_forall_ne_some.2 fun t ht => hnone t (Or.inr ht))
    · obtain ⟨t, ht⟩ := hgrown.covered w (Nat.le_of_not_lt hlt) hw
      exact absurd (Or.inl ht) (hnone t)

/-- A new node stands for a target node that nothing stood for. -/
theorem apply_insert (h : task.Sound draft) (hin : task.target.Within task.targetRoot t)
    (ht : draft.standIns[t]? = none) (hp : draft.place? parent = some p)
    (hk : k ≤ (draft.work.children p).length) :
    ∃ work, draft.apply task.target (.insert t parent k) =
        .ok ({ draft with work }.link draft.work.next t) ∧
      (draft.work.push { kind := task.target.kind t, label := task.target.label t }).Rearranges
        work ∧
      draft.work.Places work draft.work.next p k ∧
      task.Sound ({ draft with work }.link draft.work.next t) := by
  obtain ⟨work, hattach, hr, hplaces⟩ := WorkTree.exists_insert h.linked (h.place_lt hp) hk
    (task.target.kind t) (task.target.label t)
  have hnext : work.next = draft.work.next + 1 := by rw [hr.next_eq, WorkTree.next_push]
  have hfresh : draft.partners[draft.work.next]? = none :=
    Option.eq_none_iff_forall_ne_some.2 fun x hx =>
      Nat.lt_irrefl _ (h.link_lt x _ ((h.link_iff x _).2 hx)).1
  refine ⟨work, ?_, hr, hplaces, ?_⟩
  · simp only [Draft.apply, Draft.place, hp, ok_bind, Draft.attach, hattach]
    rfl
  · refine @grow _ _ h _ (fun x w => x = t ∧ w = draft.work.next)
      ⟨hplaces.linked h.linked, ?_, rfl, ?_, fun w hw => ?_, fun x w => ?_, fun x w => ?_,
        ?_, ?_, ?_⟩
    · show work.parent _ = none
      rw [hplaces.parent_eq, if_neg (Nat.ne_of_lt h.top_lt), h.top_parent]
    · show _ ≤ work.next
      omega
    · show (work.node _).kind = _ ∧ work.origin _ = _
      rw [hr.kind_eq, hr.origin_eq, WorkTree.origin, WorkTree.node_push, if_neg (Nat.ne_of_lt hw)]
      exact ⟨rfl, rfl⟩
    · rw [Draft.standIns_link]
      by_cases hx : t = x
      · subst hx
        simp [ht, eq_comm]
      · have hx' : ¬ x = t := fun heq => hx heq.symm
        simp [hx, hx']
    · rw [Draft.partners_link]
      by_cases hw : draft.work.next = w
      · subst hw
        simp [hfresh, eq_comm]
      · have hw' : ¬ w = draft.work.next := fun heq => hw heq.symm
        simp [hw, hw']
    · rintro x w ⟨rfl, -⟩
      exact hin
    · rintro x w ⟨rfl, rfl⟩
      show _ ∧ _ < work.next ∧ (work.node _).kind = _
      rw [hr.kind_eq, WorkTree.node_push, if_pos rfl]
      exact ⟨Nat.le_refl _, by omega, rfl⟩
    · intro w hle hlt
      have hlt' : w < work.next := hlt
      exact ⟨t, rfl, by omega⟩

/-- The nodes that arrive with a subtree get links of their own. -/
theorem standIns_arrive (draft : Draft) (t base x w : Nat) :
    (draft.linkAll (WorkTree.copyNumbers task.target t base)).standIns[x]? = some w ↔
      (task.target.Within t x ∧ w = WorkTree.copyNumber task.target t base x) ∨
        (¬ task.target.Within t x ∧ draft.standIns[x]? = some w) := by
  have hfst : (WorkTree.copyNumbers task.target t base).map Prod.fst = task.target.preorder t :=
    List.zipIdx_map_fst _ _
  rw [Draft.standIns_linkAll _ (by rw [hfst]; exact task.target.nodup_preorder t), hfst,
    WorkTree.mem_copyNumbers, task.target.mem_preorder]

theorem partners_arrive (draft : Draft) (t base x w : Nat) :
    (draft.linkAll (WorkTree.copyNumbers task.target t base)).partners[w]? = some x ↔
      (task.target.Within t x ∧ w = WorkTree.copyNumber task.target t base x) ∨
        ((∀ y, task.target.Within t y → w ≠ WorkTree.copyNumber task.target t base y) ∧
          draft.partners[w]? = some x) := by
  have hsnd : ((WorkTree.copyNumbers task.target t base).map Prod.snd).Nodup := by
    rw [WorkTree.copyNumbers, List.zipIdx_map_snd]
    exact List.nodup_range'
  have hnot : w ∉ (WorkTree.copyNumbers task.target t base).map Prod.snd ↔
      ∀ y, task.target.Within t y → w ≠ WorkTree.copyNumber task.target t base y := by
    simp only [List.mem_map, Prod.exists, WorkTree.mem_copyNumbers]
    constructor
    · rintro h y hy rfl
      exact h ⟨y, _, ⟨hy, rfl⟩, rfl⟩
    · rintro h ⟨y, v, ⟨hy, rfl⟩, rfl⟩
      exact h y hy rfl
  rw [Draft.partners_linkAll _ hsnd, WorkTree.mem_copyNumbers, hnot]

/-- A whole subtree arrives, for whose nodes nothing stood. -/
theorem apply_moveIn (h : task.Sound draft) (hin : task.target.Within task.targetRoot t)
    (hfree : ∀ x, task.target.Within t x → draft.standIns[x]? = none)
    (hp : draft.place? parent = some p) (hk : k ≤ (draft.work.children p).length)
    (file : Path) (justification : Option Nat) :
    ∃ work, draft.apply task.target (.moveIn t parent k file justification) =
        .ok ({ draft with work }.linkAll (WorkTree.copyNumbers task.target t draft.work.next)) ∧
      (draft.work.copySubtree task.target t false).Rearranges work ∧
      (draft.work.copySubtree task.target t false).Places work draft.work.next p k ∧
      task.Sound
        ({ draft with work }.linkAll (WorkTree.copyNumbers task.target t draft.work.next)) := by
  have hl := WorkTree.linked_copySubtree task.target t false h.linked
  have hplt := h.place_lt hp
  have hself : task.target.Within t t := Leads.refl t
  have hroot := WorkTree.node_copySubtree draft.work false hself
  have hlt := WorkTree.copyNumber_lt_next draft.work false hself
  rw [WorkTree.copyNumber_root] at hroot hlt
  obtain ⟨work, hattach, hr, hplaces⟩ := WorkTree.exists_place hl (p := p)
    (w := draft.work.next) (k := k) (by omega) hlt (by rw [WorkTree.parent, hroot]; simp)
    (by rw [WorkTree.children, WorkTree.node_copySubtree_of_lt _ _ _ hplt]; exact hk)
  have hle := fun x => WorkTree.le_copyNumber task.target t draft.work.next x
  refine ⟨work, ?_, hr, hplaces, ?_⟩
  · simp only [Draft.apply, Draft.place, hp, ok_bind, Draft.graft?, hattach, Option.map_some]
    rfl
  · refine @grow _ _ h _
      (fun x w => task.target.Within t x ∧ w = WorkTree.copyNumber task.target t draft.work.next x)
      ⟨?_, ?_, Draft.linkAll_copies .., ?_, fun w hw => ?_, fun x w => ?_, fun x w => ?_,
        ?_, ?_, ?_⟩
    · rw [Draft.linkAll_work]
      exact hplaces.linked hl
    · rw [Draft.linkAll_work, hplaces.parent_eq, if_neg (Nat.ne_of_lt h.top_lt), WorkTree.parent,
        WorkTree.node_copySubtree_of_lt _ _ _ h.top_lt]
      exact h.top_parent
    · rw [Draft.linkAll_work, hr.next_eq]
      exact Nat.le_of_lt hlt
    · rw [Draft.linkAll_work, hr.kind_eq, hr.origin_eq, WorkTree.origin,
        WorkTree.node_copySubtree_of_lt _ _ _ hw]
      exact ⟨rfl, rfl⟩
    · rw [standIns_arrive]
      refine or_congr_right ⟨And.right, fun hold => ⟨fun hx => ?_, hold⟩⟩
      rw [hfree x hx] at hold
      cases hold
    · rw [partners_arrive]
      refine or_congr_right ⟨And.right, fun hold => ⟨fun y _ heq => ?_, hold⟩⟩
      have hw := (h.link_lt x w ((h.link_iff x w).2 hold)).1
      have := hle y
      omega
    · rintro x w ⟨hx, -⟩
      exact hx.trans hin
    · rintro x w ⟨hx, rfl⟩
      rw [Draft.linkAll_work, hr.next_eq, hr.kind_eq, WorkTree.node_copySubtree _ _ hx]
      exact ⟨hle x, WorkTree.copyNumber_lt_next _ _ hx, rfl⟩
    · intro w hle hlt
      rw [Draft.linkAll_work, hr.next_eq] at hlt
      exact WorkTree.exists_copied hle hlt

end Sound

end Script.Task

end Reshape
