import Mathlib
import Reshape.Proofs.Script.Draft
import Reshape.Proofs.Sequence.Splice

/-! # Target nodes in order

While the nodes of the target are visited, some of them are marked as in order.  A marked node
stands below the node that stands for its parent, and the marked children of a node stand there in
the order of the target, with other nodes between them perhaps.  This is kept when a node is put
behind its nearest marked sibling and marked, when marks are taken away, and when the children that
an alignment leaves in their places are marked. -/

namespace Reshape.Script.Task

variable {task : Task} {draft draft' : Draft} {marks : List Nat} {t w p k : Nat} {y : Option Nat}

theorem mem_targetChildren (hy : ∀ v, y = some v → task.target.Within task.targetRoot v) :
    t ∈ task.targetChildren y ↔
      task.target.Within task.targetRoot t ∧ task.targetParent t = y := by
  unfold targetParent
  cases y with
  | none =>
    rw [targetChildren, List.mem_singleton]
    constructor
    · rintro rfl
      exact ⟨Leads.refl _, if_pos rfl⟩
    · rintro ⟨hin, hparent⟩
      by_contra hne
      rcases hin.eq_or_step with heq | ⟨q, hq, -⟩
      · exact hne heq
      · rw [if_neg hne, hq] at hparent
        cases hparent
  | some v =>
    rw [targetChildren, task.target.mem_children]
    constructor
    · intro hv
      have hne : t ≠ task.targetRoot := task.target.ne_root_of_parent (hy v rfl) hv
      exact ⟨Leads.step hv (hy v rfl), by rw [if_neg hne, hv]⟩
    · rintro ⟨-, hparent⟩
      split at hparent
      · cases hparent
      · exact hparent

theorem nodup_targetChildren (task : Task) (y : Option Nat) : (task.targetChildren y).Nodup := by
  cases y with
  | none => exact List.nodup_singleton _
  | some v => exact task.target.nodup_children v

/-- A node is a child of its parent. -/
theorem mem_targetChildren_targetParent (hin : task.target.Within task.targetRoot t) :
    t ∈ task.targetChildren (task.targetParent t) := by
  refine (mem_targetChildren fun v hv => ?_).2 ⟨hin, rfl⟩
  unfold targetParent at hv
  split at hv
  · cases hv
  · rename_i hne
    rcases hin.eq_or_step with heq | ⟨q, hq, hwithin⟩
    · exact absurd heq hne
    · obtain rfl : q = v := Option.some.inj (hq.symm.trans hv)
      exact hwithin

theorem Sound.mem_targetChildren (h : task.Sound draft) (hp : draft.place? y = some p) :
    t ∈ task.targetChildren y ↔
      task.target.Within task.targetRoot t ∧ task.targetParent t = y := by
  refine Task.mem_targetChildren fun v hv => ?_
  subst hv
  exact h.link_within v p hp

theorem place?_congr (h : draft'.standIns = draft.standIns) (y : Option Nat) :
    draft'.place? y = draft.place? y := by
  cases y with
  | none => rfl
  | some v => rw [Draft.place?, Draft.place?, h]

/-- The work nodes that stand for the marked children of a target node, in the order of the
target. -/
def shown (task : Task) (draft : Draft) (marks : List Nat) (y : Option Nat) : List Nat :=
  ((task.targetChildren y).filter marks.contains).filterMap (draft.standIns[·]?)

theorem mem_shown : w ∈ task.shown draft marks y ↔
    ∃ t, t ∈ task.targetChildren y ∧ t ∈ marks ∧ draft.standIns[t]? = some w := by
  simp only [shown, List.mem_filterMap, List.mem_filter, List.contains_iff_mem, and_assoc]

/-- One more mark shows nothing new where the marked node is no child. -/
theorem shown_cons_of_notMem (hmiss : t ∉ task.targetChildren y)
    (hlinks : ∀ x, x ≠ t → draft'.standIns[x]? = draft.standIns[x]?) :
    task.shown draft' (t :: marks) y = task.shown draft marks y :=
  Sequence.filterMap_of_notMem hmiss fun x _ hx => hlinks x hx

/-- A new link takes away no place. -/
theorem place?_of_link (hold : draft.standIns[t]? = none ∨ draft.standIns[t]? = some w)
    (hlinks : ∀ x : Nat, draft'.standIns[x]? = if t = x then some w else draft.standIns[x]?)
    (hp : draft.place? y = some p) : draft'.place? y = some p := by
  cases y with
  | none => exact hp
  | some v =>
    show draft'.standIns[v]? = some p
    rw [hlinks]
    split
    · rename_i heq
      subst heq
      rcases hold with hold | hold
      · exact absurd (hold.symm.trans hp) (by simp)
      · exact hold.symm.trans hp
    · exact hp

/-- The position behind the nearest sibling in order, read off the children of the place of the
parent. -/
theorem findPosition_eq
    (h : ∀ v ∈ task.targetChildren (task.targetParent t), v ∈ marks → ∀ u : Nat,
      draft.standIns[v]? = some u → draft.work.parent u = some p) :
    task.findPosition draft marks t =
      Sequence.positionBehind (task.targetChildren (task.targetParent t)) marks.contains
        (draft.standIns[·]?) (draft.work.children p) t := by
  unfold findPosition Sequence.positionBehind leftSiblings
  cases hleft : ((task.targetChildren (task.targetParent t)).takeWhile (· != t)).reverse.find?
      marks.contains with
  | none => rfl
  | some v =>
    have hv : v ∈ task.targetChildren (task.targetParent t) :=
      (List.takeWhile_subset _) (List.mem_reverse.1 (List.mem_of_find?_eq_some hleft))
    have hmark : v ∈ marks := List.contains_iff_mem.1 (List.find?_some hleft)
    simp only [Option.bind_some]
    cases hu : draft.standIns[v]? with
    | none => rfl
    | some u =>
      have hplace : draft.work.position? u = (draft.work.children p).idxOf? u := by
        rw [WorkTree.position?, h v hv hmark u hu, Option.bind_some]
      cases hindex : (draft.work.children p).idxOf? u <;>
        simp only [Option.bind_some, hplace, hindex]

/-- Marked target nodes stand where they belong, among each other in the order of the target. -/
structure InOrder (task : Task) (draft : Draft) (marks : List Nat) : Prop where
  placed : ∀ t ∈ marks, ∃ w p : Nat, draft.standIns[t]? = some w ∧
    draft.place? (task.targetParent t) = some p ∧ draft.work.parent w = some p
  ordered : ∀ (y : Option Nat) (p : Nat), draft.place? y = some p →
    (task.shown draft marks y).Sublist (draft.work.children p)

namespace InOrder

theorem nil (task : Task) (draft : Draft) : task.InOrder draft [] where
  placed t ht := absurd ht List.not_mem_nil
  ordered y p _ := by
    rw [shown, List.filter_eq_nil_iff.2 (by simp)]
    exact List.nil_sublist _

/-- Only the links and the places of the work nodes matter. -/
theorem congr (h : task.InOrder draft marks) (hstand : draft'.standIns = draft.standIns)
    (hparent : ∀ c, draft'.work.parent c = draft.work.parent c)
    (hchildren : ∀ c, draft'.work.children c = draft.work.children c) :
    task.InOrder draft' marks where
  placed t ht := by
    obtain ⟨w, p, hw, hp, hup⟩ := h.placed t ht
    exact ⟨w, p, by rwa [hstand], by rwa [place?_congr hstand], (hparent w).trans hup⟩
  ordered y p hp := by
    rw [hchildren, shown, hstand]
    exact h.ordered y p (by rwa [place?_congr hstand] at hp)

/-- Marks can be taken away. -/
theorem mono (h : task.InOrder draft marks) {fewer : List Nat} (hsub : fewer ⊆ marks) :
    task.InOrder draft fewer where
  placed t ht := h.placed t (hsub ht)
  ordered y p hp := by
    refine List.Sublist.trans ?_ (h.ordered y p hp)
    refine (List.monotone_filter_right _ fun v hv => ?_).filterMap _
    exact List.contains_iff_mem.2 (hsub (List.contains_iff_mem.1 hv))

/-- A node to be put somewhere is none of the marked ones. -/
theorem shown_sublist_filter (h : task.InOrder draft marks) (hnot : t ∉ marks)
    (hfree : ∀ x : Nat, draft.standIns[x]? = some w → x = t) (hp : draft.place? y = some p) :
    (task.shown draft marks y).Sublist ((draft.work.children p).filter (· != w)) := by
  have hfilter : (task.shown draft marks y).filter (· != w) = task.shown draft marks y := by
    refine List.filter_eq_self.2 fun u hu => ?_
    obtain ⟨v, -, hv, hvu⟩ := mem_shown.1 hu
    have hne : u ≠ w := by
      rintro rfl
      exact hnot (hfree v hvu ▸ hv)
    simpa using hne
  rw [← hfilter]
  exact (h.ordered y p hp).filter _

/-- The position of the place of a target node among the children of its parent's place. -/
def slot (task : Task) (draft : Draft) (marks : List Nat) (t w p : Nat) : Nat :=
  Sequence.positionBehind (task.targetChildren (task.targetParent t)) marks.contains
    (draft.standIns[·]?) ((draft.work.children p).filter (· != w)) t

theorem slot_splice (h : task.InOrder draft marks) (hsound : task.Sound draft)
    (hin : task.target.Within task.targetRoot t) (hnot : t ∉ marks)
    (hp : draft.place? (task.targetParent t) = some p)
    (hfree : ∀ x : Nat, draft.standIns[x]? = some w → x = t) :
    slot task draft marks t w p ≤ ((draft.work.children p).filter (· != w)).length ∧
      (((task.targetChildren (task.targetParent t)).filter fun v =>
        v == t || marks.contains v).filterMap fun x =>
        if t = x then some w else draft.standIns[x]?).Sublist
          (((draft.work.children p).filter (· != w)).insertIdx
            (slot task draft marks t w p) w) := by
  refine Sequence.splice_sublist (task.nodup_targetChildren _)
    (mem_targetChildren_targetParent hin) ((hsound.linked.nodup_down p).filter _) ?_
    (h.shown_sublist_filter hnot hfree hp) (if_pos rfl) ?_
  · intro v _ hv
    obtain ⟨u, -, hu, -⟩ := h.placed v (List.contains_iff_mem.1 hv)
    exact ⟨u, hu⟩
  · intro v _ hv
    exact if_neg fun heq => hv heq.symm

/-- The slot is found by a look at the left siblings, with the node itself out of the way. -/
theorem findPosition_eq_slot (h : task.InOrder draft marks)
    (hp : draft.place? (task.targetParent t) = some p) (hsound : task.Sound draft)
    (haway : (draft.work.children p).filter (· != w) = draft.work.children p) :
    task.findPosition draft marks t = slot task draft marks t w p := by
  rw [slot, haway]
  refine findPosition_eq fun v hv hmark u hu => ?_
  obtain ⟨u', q, hu', hq, hup⟩ := h.placed v hmark
  obtain rfl : u' = u := Option.some.inj (hu'.symm.trans hu)
  rw [((hsound.mem_targetChildren hp).1 hv).2, hp] at hq
  rw [hup, hq]

theorem findPosition_detach_eq_slot (h : task.InOrder draft marks)
    (hp : draft.place? (task.targetParent t) = some p) (hsound : task.Sound draft)
    (hnot : t ∉ marks) (hfree : ∀ x : Nat, draft.standIns[x]? = some w → x = t) :
    task.findPosition { draft with work := draft.work.detach w } marks t =
      slot task draft marks t w p := by
  rw [slot, ← WorkTree.children_detach hsound.linked]
  refine findPosition_eq fun v hv hmark u hu => ?_
  obtain ⟨u', q, hu', hq, hup⟩ := h.placed v hmark
  obtain rfl : u' = u := Option.some.inj (hu'.symm.trans hu)
  have hne : u' ≠ w := by
    rintro rfl
    exact hnot (hfree v hu ▸ hmark)
  rw [((hsound.mem_targetChildren hp).1 hv).2, hp] at hq
  rw [WorkTree.parent_detach, if_neg hne, hup, hq]

/-- Nothing is shown below a target node without a place. -/
theorem shown_eq_nil (h : task.InOrder draft marks)
    (hparent : ∀ v ∈ task.targetChildren y, task.targetParent v = y)
    (hy : draft.place? y = none) : task.shown draft marks y = [] := by
  refine List.eq_nil_iff_forall_not_mem.2 fun u hu => ?_
  obtain ⟨v, hv, hmark, -⟩ := mem_shown.1 hu
  obtain ⟨-, q, -, hq, -⟩ := h.placed v hmark
  rw [hparent v hv, hy] at hq
  cases hq

/-- **A node that is put in its slot is in order.** -/
theorem place (h : task.InOrder draft marks) (hsound : task.Sound draft)
    (hsound' : task.Sound draft') (hin : task.target.Within task.targetRoot t) (hnot : t ∉ marks)
    (hp : draft.place? (task.targetParent t) = some p)
    (hfree : ∀ x : Nat, draft.standIns[x]? = some w → x = t)
    (hold : draft.standIns[t]? = none ∨ draft.standIns[t]? = some w)
    (hlinks : ∀ x : Nat, draft'.standIns[x]? = if t = x then some w else draft.standIns[x]?)
    (hplaces : draft.work.Places draft'.work w p (slot task draft marks t w p)) :
    task.InOrder draft' (t :: marks) := by
  have hkeep : ∀ y q, draft.place? y = some q → draft'.place? y = some q :=
    fun y q hq => place?_of_link hold hlinks hq
  have hp' := hkeep _ _ hp
  refine ⟨?_, ?_⟩
  · intro x hx
    rcases List.mem_cons.1 hx with rfl | hx
    · exact ⟨w, p, by rw [hlinks, if_pos rfl], hp', by rw [hplaces.parent_eq, if_pos rfl]⟩
    · obtain ⟨u, q, hu, hq, hup⟩ := h.placed x hx
      have hne : u ≠ w := by
        rintro rfl
        exact hnot (hfree x hu ▸ hx)
      refine ⟨u, q, hkeep (some x) u hu, hkeep _ _ hq, ?_⟩
      rw [hplaces.parent_eq, if_neg hne, hup]
  · intro y q hq
    have hparent : ∀ v ∈ task.targetChildren y, task.targetParent v = y :=
      fun v hv => ((hsound'.mem_targetChildren hq).1 hv).2
    by_cases hqp : q = p
    · subst hqp
      obtain rfl := hsound'.place_inj hp' hq
      rw [hplaces.children_eq, if_pos rfl]
      unfold shown
      rw [funext hlinks]
      exact (h.slot_splice hsound hin hnot hp hfree).2
    · -- The node itself belongs elsewhere, so the same nodes are shown as before.
      have hmiss : t ∉ task.targetChildren y := by
        intro hmem
        rw [hparent t hmem, hq] at hp'
        exact hqp (Option.some.inj hp')
      have hshown : task.shown draft' (t :: marks) y = task.shown draft marks y :=
        shown_cons_of_notMem hmiss fun x hx => by rw [hlinks, if_neg (Ne.symm hx)]
      rw [hshown, hplaces.children_eq, if_neg hqp]
      cases hq' : draft.place? y with
      | none =>
        rw [h.shown_eq_nil hparent hq']
        exact List.nil_sublist _
      | some q' =>
        obtain rfl : q' = q := Option.some.inj ((hkeep y q' hq').symm.trans hq)
        exact h.shown_sublist_filter hnot hfree hq'

/-- A node that stands below the place of its parent can be marked, if it is marked already or has
no siblings. -/
theorem mark (h : task.InOrder draft marks) (hsound : task.Sound draft)
    (hw : draft.standIns[t]? = some w) (hp : draft.place? (task.targetParent t) = some p)
    (hup : draft.work.parent w = some p) (ht : t ∈ marks ∨ t = task.targetRoot) :
    task.InOrder draft (t :: marks) := by
  rcases ht with ht | rfl
  · exact h.mono (List.cons_subset.2 ⟨ht, List.Subset.refl _⟩)
  refine ⟨fun x hx => ?_, fun y q hq => ?_⟩
  · rcases List.mem_cons.1 hx with rfl | hx
    · exact ⟨w, p, hw, hp, hup⟩
    · exact h.placed x hx
  · have hroot : task.targetParent task.targetRoot = none := if_pos rfl
    cases y with
    | none =>
      rw [hroot, hq] at hp
      have hshown : task.shown draft (task.targetRoot :: marks) none = [w] := by
        simp [shown, targetChildren, hw]
      rw [hshown, List.singleton_sublist]
      exact hsound.linked.mem_down.2 (hup.trans hp.symm)
    | some v =>
      have hmiss : task.targetRoot ∉ task.targetChildren (some v) := by
        intro hmem
        have hparent := ((hsound.mem_targetChildren hq).1 hmem).2
        rw [hroot] at hparent
        cases hparent
      rw [shown_cons_of_notMem hmiss fun _ _ => rfl]
      exact h.ordered (some v) q hq

/-- Children that stand in the order of the target below the place of their parent can be marked, if
no other child is marked. -/
theorem stay (h : task.InOrder draft marks) (hsound : task.Sound draft)
    (hw : draft.standIns[t]? = some w) (hclean : ∀ d ∈ task.target.children t, d ∉ marks)
    {stays : List Nat} (hsub : stays.Sublist (task.target.children t))
    (hstand : ∀ d ∈ stays, ∃ u : Nat, draft.standIns[d]? = some u ∧ draft.work.parent u = some w)
    (hordered : (stays.filterMap (draft.standIns[·]?)).Sublist (draft.work.children w)) :
    task.InOrder draft (stays ++ marks) := by
  have hplace : draft.place? (some t) = some w := hw
  have hparent : ∀ d ∈ stays, task.targetParent d = some t := fun d hd =>
    ((hsound.mem_targetChildren hplace).1 (hsub.subset hd)).2
  refine ⟨?_, ?_⟩
  · intro d hd
    rcases List.mem_append.1 hd with hd | hd
    · obtain ⟨u, hu, hup⟩ := hstand d hd
      exact ⟨u, w, hu, by rw [hparent d hd]; exact hplace, hup⟩
    · exact h.placed d hd
  · intro y q hq
    by_cases hy : y = some t
    · subst hy
      obtain rfl : w = q := Option.some.inj (hplace.symm.trans hq)
      -- No other child is marked, so the marked ones are those that stay, in the same order.
      have hfilter : (task.target.children t).filter (stays ++ marks).contains = stays := by
        have hnodup := task.target.nodup_children t
        refine (hnodup.perm_iff_eq_of_sublist List.filter_sublist hsub).1 ?_
        refine (List.perm_ext_iff_of_nodup (hnodup.filter _) (hnodup.sublist hsub)).2 fun d => ?_
        rw [List.mem_filter, List.contains_iff_mem, List.mem_append]
        constructor
        · rintro ⟨hd, hd' | hd'⟩
          · exact hd'
          · exact absurd hd' (hclean d hd)
        · exact fun hd => ⟨hsub.subset hd, Or.inl hd⟩
      unfold shown targetChildren
      rw [hfilter]
      exact hordered
    · have hshown : task.shown draft (stays ++ marks) y = task.shown draft marks y := by
        unfold shown
        congr 1
        refine List.filter_congr fun v hv => ?_
        have hnot : v ∉ stays := by
          intro hmem
          exact hy (((hsound.mem_targetChildren hq).1 hv).2.symm.trans (hparent v hmem))
        rw [Bool.eq_iff_iff, List.contains_iff_mem, List.contains_iff_mem, List.mem_append]
        exact ⟨fun hv => hv.resolve_left hnot, Or.inr⟩
      rw [hshown]
      exact h.ordered y q hq

end InOrder

end Reshape.Script.Task
