import Mathlib
import Reshape.Proofs.Script.Reduction

/-! # Subtrees that arrive

The last phase of a script puts in the subtrees that arrive from other files.  Each of them goes
behind the left siblings of its top that something stands for, so the children of every place stay
in the order of the target.  In the end something stands for every node of the target subtree. -/

namespace Reshape.Script.Task

variable {task : Task} {progress : Progress} {draft : Draft} {t p : Nat} {seen : List Nat}

/-- The position among the siblings that are there, as it is counted. -/
theorem length_leftSiblings (task : Task) (draft : Draft) (t : Nat) :
    ((task.leftSiblings t).filter draft.standIns.contains).length =
      ((task.leftSiblings t).filterMap (draft.standIns[·]?)).length := by
  rw [List.length_filterMap_eq_countP, List.countP_eq_length_filter]
  refine congrArg List.length (List.filter_congr fun x _ => ?_)
  exact Std.TreeMap.contains_eq_isSome_getElem?

/-- The siblings of a node fall into those to its left, the node, and those to its right. -/
theorem targetChildren_split (hin : task.target.Within task.targetRoot t) :
    ∃ right, task.targetChildren (task.targetParent t) = task.leftSiblings t ++ t :: right ∧
      t ∉ task.leftSiblings t ∧ t ∉ right :=
  Sequence.exists_split (task.nodup_targetChildren _) (mem_targetChildren_targetParent hin)

/-- No other child of a node belongs to the subtree at a child. -/
theorem eq_of_within_of_sibling {x : Nat} (hin : task.target.Within task.targetRoot t)
    (hx : x ∈ task.targetChildren (task.targetParent t)) (hwithin : task.target.Within t x) :
    x = t := by
  have ht := mem_targetChildren_targetParent hin
  cases hy : task.targetParent t with
  | none =>
    rw [hy] at hx ht
    exact (List.mem_singleton.1 hx).trans (List.mem_singleton.1 ht).symm
  | some v =>
    rw [hy] at hx ht
    exact task.target.eq_of_within_siblings hx ht (Leads.refl x) hwithin

/-- Below a node that is neither in a subtree nor the parent of its top, there is no node of the
subtree. -/
theorem not_within_of_targetParent {x : Nat} (hin : task.target.Within task.targetRoot t)
    (hne : task.targetParent x ≠ task.targetParent t)
    (hout : ∀ v, task.targetParent x = some v → ¬ task.target.Within t v) :
    ¬ task.target.Within t x := by
  intro hwithin
  rcases hwithin.eq_or_step with rfl | ⟨v, hv, hvt⟩
  · exact hne rfl
  · refine hout v ?_ hvt
    rw [targetParent, if_neg, hv]
    rintro rfl
    have hlt := task.target.lt_of_parent hv
    exact absurd hlt (Nat.not_lt.2 (task.target.le_of_within (hvt.trans hin)))

/-! ### What stands for a node after an arrival -/

section Arrived

variable (draft) (base : Nat) {x : Nat}

theorem standIns_arrive_of_within (hx : task.target.Within t x) :
    (draft.linkAll (WorkTree.copyNumbers task.target t base)).standIns[x]? =
      some (WorkTree.copyNumber task.target t base x) :=
  (Sound.standIns_arrive draft t base x _).2 (Or.inl ⟨hx, rfl⟩)

theorem standIns_arrive_of_not (hx : ¬ task.target.Within t x) :
    (draft.linkAll (WorkTree.copyNumbers task.target t base)).standIns[x]? =
      draft.standIns[x]? := by
  refine Option.ext fun u => ?_
  rw [Sound.standIns_arrive]
  exact ⟨fun hor => (hor.resolve_left fun hl => hx hl.1).2, fun hu => Or.inr ⟨hx, hu⟩⟩

theorem filterMap_arrive_of_not {part : List Nat} (hpart : ∀ x ∈ part, ¬ task.target.Within t x) :
    part.filterMap ((draft.linkAll (WorkTree.copyNumbers task.target t base)).standIns[·]?) =
      part.filterMap (draft.standIns[·]?) :=
  List.filterMap_congr fun x hx => standIns_arrive_of_not draft base (hpart x hx)

/-- The top of the subtree comes behind its left siblings. -/
theorem filterMap_arrive_siblings (hin : task.target.Within task.targetRoot t)
    (hfree : draft.standIns[t]? = none) :
    (task.targetChildren (task.targetParent t)).filterMap
        ((draft.linkAll (WorkTree.copyNumbers task.target t base)).standIns[·]?) =
      ((task.targetChildren (task.targetParent t)).filterMap (draft.standIns[·]?)).insertIdx
        ((task.leftSiblings t).filterMap (draft.standIns[·]?)).length base := by
  obtain ⟨right, hsplit, hleft, hright⟩ := targetChildren_split hin
  have hside : ∀ part : List Nat, part ⊆ task.targetChildren (task.targetParent t) → t ∉ part →
      ∀ x ∈ part, ¬ task.target.Within t x := by
    intro part hpart hnot x hx hwithin
    exact hnot (eq_of_within_of_sibling hin (hpart hx) hwithin ▸ hx)
  have hleft' := hside _ (by rw [hsplit]; simp) hleft
  have hright' := hside _ (by rw [hsplit]; exact fun x hx => by simp [hx]) hright
  rw [hsplit, List.filterMap_append, List.filterMap_append, filterMap_arrive_of_not _ _ hleft',
    List.filterMap_cons_some (standIns_arrive_of_within draft base (Leads.refl t)),
    filterMap_arrive_of_not _ _ hright', WorkTree.copyNumber_root, List.filterMap_cons_none hfree,
    Sequence.insertIdx_length_append]

end Arrived

/-- The copies of a subtree have the copies of the children as their children. -/
theorem children_copySubtree (work : WorkTree) {x : Nat} (hx : task.target.Within t x) :
    ((work.copySubtree task.target t false).children
        (WorkTree.copyNumber task.target t work.next x)).filter (· != work.next) =
      (task.target.children x).map (WorkTree.copyNumber task.target t work.next) := by
  rw [WorkTree.children, WorkTree.node_copySubtree _ _ hx]
  refine List.filter_eq_self.2 fun c hc => ?_
  obtain ⟨d, hd, rfl⟩ := List.mem_map.1 hc
  have hle := WorkTree.le_copyNumber task.target t work.next x
  have hlt : WorkTree.copyNumber task.target t work.next x < _ :=
    WorkTree.copyNumber_lt hx (task.target.mem_children.1 hd)
  exact bne_iff_ne.2 (by omega)

/-- Old places keep the children they have. -/
theorem children_copySubtree_of_lt {work : WorkTree} (hlinked : work.Linked) {q : Nat}
    (hq : q < work.next) :
    ((work.copySubtree task.target t false).children q).filter (· != work.next) =
      work.children q := by
  rw [WorkTree.children, WorkTree.node_copySubtree_of_lt _ _ _ hq]
  refine List.filter_eq_self.2 fun c hc => bne_iff_ne.2 (Nat.ne_of_lt ?_)
  exact WorkTree.lt_next_of_parent (hlinked.mem_down.1 hc)

/-- **A subtree arrives** in its place: the children of every place stay in the order of the
target. -/
theorem Standing.arrive (h : task.Standing draft) (hsound : task.Sound draft)
    (hin : task.target.Within task.targetRoot t)
    (hfree : ∀ x, task.target.Within t x → draft.standIns[x]? = none)
    (hp : draft.place? (task.targetParent t) = some p) {work : WorkTree}
    (hr : (draft.work.copySubtree task.target t false).Rearranges work)
    (hplaces : (draft.work.copySubtree task.target t false).Places work draft.work.next p
      ((task.leftSiblings t).filterMap (draft.standIns[·]?)).length) :
    task.Standing
      ({ draft with work }.linkAll (WorkTree.copyNumbers task.target t draft.work.next)) := by
  refine ⟨?_, ?_⟩
  · intro x u hu
    rw [Draft.linkAll_work]
    show work.label u = _
    rw [hr.label_eq]
    rcases (Sound.standIns_arrive { draft with work } t draft.work.next x u).1 hu with
      ⟨hx, rfl⟩ | ⟨-, hu⟩
    · rw [WorkTree.label, WorkTree.node_copySubtree _ _ hx]
    · rw [WorkTree.label, WorkTree.node_copySubtree_of_lt _ _ _ (hsound.link_lt x u hu).1]
      exact h.label_eq x u hu
  · intro y q hq
    rw [Draft.linkAll_work]
    show work.children q = _
    rw [hplaces.children_eq]
    have hplt := hsound.place_lt hp
    by_cases hy : ∃ x, y = some x ∧ task.target.Within t x
    · -- A copy has the copies of all its children.
      obtain ⟨x, rfl, hx⟩ := hy
      obtain rfl : WorkTree.copyNumber task.target t draft.work.next x = q :=
        Option.some.inj ((standIns_arrive_of_within _ _ hx).symm.trans hq)
      have hle := WorkTree.le_copyNumber task.target t draft.work.next x
      rw [if_neg (by omega), children_copySubtree _ hx, targetChildren]
      refine (List.filterMap_eq_map_iff_forall_eq_some.2 fun d hd => ?_).symm
      exact standIns_arrive_of_within _ _ (Leads.step (task.target.mem_children.1 hd) hx)
    · have hq' : draft.place? y = some q := by
        cases y with
        | none => exact hq
        | some x =>
          exact (standIns_arrive_of_not { draft with work } _ fun hx =>
            hy ⟨x, rfl, hx⟩).symm.trans hq
      by_cases hqp : q = p
      · subst hqp
        obtain rfl := hsound.place_inj hp hq'
        rw [if_pos rfl, children_copySubtree_of_lt hsound.linked hplt, h.children_eq _ q hq']
        exact (filterMap_arrive_siblings { draft with work } _ hin (hfree t (Leads.refl t))).symm
      · rw [if_neg hqp, children_copySubtree_of_lt hsound.linked (hsound.place_lt hq'),
          h.children_eq y q hq']
        refine (filterMap_arrive_of_not { draft with work } _ fun x hx => ?_).symm
        obtain rfl := ((hsound.mem_targetChildren hq').1 hx).2
        refine not_within_of_targetParent hin (fun heq => hqp ?_) fun v hv hvt => hy ⟨v, hv, hvt⟩
        rw [heq, hp] at hq'
        exact (Option.some.inj hq').symm

/-- In the last phase, some subtrees have arrived. -/
structure Arriving (task : Task) (seen : List Nat) (progress : Progress) : Prop extends
    Underway task progress, Standing task progress.draft where
  stands_iff : ∀ t : Nat, (∃ w, progress.draft.standIns[t]? = some w) ↔
    t ∈ task.visits ∨ ∃ a ∈ seen, task.target.Within a t

theorem Visited.arriving (h : task.Visited progress) {reduced : Progress}
    (hreduced : task.Pruning progress (leftOver progress.draft) reduced) :
    task.Arriving [] reduced where
  toUnderway := hreduced.toUnderway
  toStanding := h.standing hreduced
  stands_iff t := by
    rw [hreduced.standIns_eq]
    constructor
    · rintro ⟨w, hw⟩
      exact Or.inl (h.mem_visits t w hw)
    · rintro (ht | ⟨a, ha, -⟩)
      · obtain ⟨w, -, hw, -⟩ := h.stands t ht
        exact ⟨w, hw⟩
      · exact absurd ha List.not_mem_nil

/-- The parent of a subtree that arrives is visited. -/
theorem targetParent_mem_visits_of_takenUp (h : task.targetSide.TakenUp t) {v : Nat}
    (hv : task.targetParent t = some v) : v ∈ task.visits := by
  unfold targetParent at hv
  split at hv
  · cases hv
  · rename_i hroot
    rcases h.1.eq_or_step with heq | ⟨q, hq, hwithin⟩
    · exact absurd heq hroot
    · obtain rfl : q = v := Option.some.inj (hq.symm.trans hv)
      refine mem_visits.2 ⟨hwithin, ?_⟩
      by_contra hcarried
      obtain ⟨a, ha, hqa⟩ := ScriptSide.exists_takenUp hwithin (by simpa using hcarried)
      obtain rfl := h.eq_of_within ha (Leads.refl t) (Leads.step hq hqa)
      have hlt := task.target.lt_of_parent hq
      exact absurd hlt (Nat.not_lt.2 (task.target.le_of_within hqa))

/-- One more subtree arrives. -/
theorem Arriving.arrive (h : task.Arriving seen progress) {report : Report}
    (htaken : task.targetSide.TakenUp report.node)
    (hseen : ∀ a ∈ seen, task.targetSide.TakenUp a) (hnew : report.node ∉ seen) :
    ∃ next, task.arrive progress report = .ok next ∧
      task.Arriving (seen ++ [report.node]) next ∧
      next.edits.filterMap Entry.ofEdit? =
        progress.edits.filterMap Entry.ofEdit? ++ [.movedIn report.node] := by
  have hin : task.target.Within task.targetRoot report.node := htaken.1
  obtain ⟨p, hp⟩ : ∃ p, progress.draft.place? (task.targetParent report.node) = some p := by
    cases hy : task.targetParent report.node with
    | none => exact ⟨_, rfl⟩
    | some v => exact (h.stands_iff v).2 (Or.inl (targetParent_mem_visits_of_takenUp htaken hy))
  -- What stands so far was visited, which no carried node is, or arrived with another subtree.
  have hfree : ∀ x, task.target.Within report.node x → progress.draft.standIns[x]? = none := by
    intro x hx
    by_contra hsome
    rcases (h.stands_iff x).1 (Option.ne_none_iff_exists'.1 hsome) with hvisit | ⟨a, ha, hax⟩
    · have hcarried := (mem_visits.1 hvisit).2
      rw [htaken.carried hx] at hcarried
      cases hcarried
    · obtain rfl := htaken.eq_of_within (hseen a ha) hx hax
      exact hnew ha
  obtain ⟨right, hsplit, -, -⟩ := targetChildren_split hin
  have hk : ((task.leftSiblings report.node).filterMap (progress.draft.standIns[·]?)).length ≤
      (progress.draft.work.children p).length := by
    rw [h.children_eq _ p hp, hsplit, List.filterMap_append, List.length_append]
    exact Nat.le_add_right _ _
  obtain ⟨work, happly, hr, hplaces, hsound⟩ :=
    h.sound.apply_moveIn hin hfree hp hk report.file report.justification
  obtain ⟨hemit, hunder⟩ := h.toUnderway.emit happly hsound
  refine ⟨_, ?_, ⟨hunder, ?_, ?_⟩, ?_⟩
  · rw [arrive_eq_ok hp, length_leftSiblings]
    exact hemit
  · exact h.toStanding.arrive h.sound hin hfree hp hr hplaces
  · intro x
    simp only [Sound.standIns_arrive, List.mem_append, List.mem_singleton]
    by_cases hx : task.target.Within report.node x
    · simp only [hx, true_and, not_true_eq_false, false_and, or_false, exists_eq, true_iff]
      exact Or.inr ⟨report.node, Or.inr rfl, hx⟩
    · simp only [hx, false_and, not_false_eq_true, true_and, false_or]
      rw [h.stands_iff x]
      refine or_congr_right ⟨?_, ?_⟩
      · rintro ⟨a, ha, hax⟩
        exact ⟨a, Or.inl ha, hax⟩
      · rintro ⟨a, ha | rfl, hax⟩
        · exact ⟨a, ha, hax⟩
        · exact absurd hax hx
  · simp [Entry.ofEdit?]

/-- **The last phase** lets every subtree arrive that is taken up. -/
theorem exists_complete (h : task.Arriving [] progress) :
    ∃ complete, task.targetSide.transferred.foldlM task.arrive progress = .ok complete ∧
      task.Arriving (task.targetSide.transferred.map Report.node) complete ∧
      complete.edits.filterMap Entry.ofEdit? = progress.edits.filterMap Entry.ofEdit? ++
        (task.targetSide.transferred.map Report.node).map .movedIn := by
  refine foldlM_ok (fun seen state => task.Arriving (seen.map Report.node) state ∧
    state.edits.filterMap Entry.ofEdit? = progress.edits.filterMap Entry.ofEdit? ++
      (seen.map Report.node).map .movedIn) ⟨h, by simp⟩ ?_
  rintro seen report rest state hlist ⟨hstate, hnoted⟩
  have htaken : ∀ r ∈ task.targetSide.transferred, task.targetSide.TakenUp r.node :=
    fun r hr => ScriptSide.mem_transferred_nodes.1 (List.mem_map_of_mem hr)
  have hnodup := task.targetSide.nodup_transferred_nodes
  rw [hlist, List.map_append, List.map_cons] at hnodup
  obtain ⟨next, hnext, harrive, hentries⟩ := hstate.arrive
    (htaken report (by rw [hlist]; simp))
    (fun a ha => by
      obtain ⟨r, hr, rfl⟩ := List.mem_map.1 ha
      exact htaken r (by rw [hlist]; simp [hr]))
    (fun hmem => (List.nodup_append.1 hnodup).2.2 _ hmem _ (by simp) rfl)
  refine ⟨next, hnext, ?_, ?_⟩
  · rw [List.map_append]
    exact harrive
  · rw [hentries, hnoted, List.map_append, List.map_append, List.append_assoc]
    rfl

/-- In the end something stands for every node of the target subtree. -/
theorem Arriving.stands (h : task.Arriving (task.targetSide.transferred.map Report.node) progress)
    (hin : task.target.Within task.targetRoot t) :
    ∃ w, progress.draft.standIns[t]? = some w := by
  refine (h.stands_iff t).2 ?_
  by_cases hcarried : task.targetSide.carried t = true
  · obtain ⟨a, ha, hat⟩ := ScriptSide.exists_takenUp hin hcarried
    exact Or.inr ⟨a, ScriptSide.mem_transferred_nodes.2 ha, hat⟩
  · exact Or.inl (mem_visits.2 ⟨hin, by simpa using hcarried⟩)

end Reshape.Script.Task
