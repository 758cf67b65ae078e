import Mathlib
import Reshape.Proofs.Script.Arrival

/-! # The round trip of an edit script

A script can be made for every two subtrees, every one-to-one mapping and all reports of moves
between files.  Making it and replaying it perform the same edits on the same draft, so the replay
ends in the draft that the script was made on.  That draft has the shape and the labels of the
target subtree.  It has its kinds as well exactly if the pairs of the mapping have equal kinds, for
no edit changes the kind of a node. -/

namespace Reshape

/-! ### Grouping -/

namespace Action

theorem editsAll_append (actions more : List Action) :
    editsAll (actions ++ more) = editsAll actions ++ editsAll more := by
  induction actions with
  | nil => rfl
  | cons action actions ih => rw [List.cons_append, editsAll, editsAll, ih, List.append_assoc]

theorem editsAll_singleton (action : Action) : editsAll [action] = action.edits :=
  List.append_nil _

theorem editsAll_closeRun (run : List Action) : editsAll (closeRun run) = editsAll run := by
  match run with
  | [] => rfl
  | [_] => rfl
  | first :: second :: rest => exact editsAll_singleton (.multi (first :: second :: rest))

theorem editsAll_groupFrom (run rest : List Action) :
    editsAll (groupFrom run rest) = editsAll run ++ editsAll rest := by
  induction rest generalizing run with
  | nil => rw [groupFrom, editsAll_closeRun, editsAll, List.append_nil]
  | cons action rest ih =>
    rw [groupFrom]
    split
    · rw [editsAll_append, editsAll_closeRun, editsAll, ih, editsAll, List.nil_append, editsAll]
    · split
      · rw [ih, editsAll_append, editsAll_singleton, editsAll, List.append_assoc]
      · rw [editsAll_append, editsAll_closeRun, ih, editsAll_singleton, editsAll]

theorem editsAll_map (edits : List Edit) : editsAll (edits.map .edit) = edits := by
  induction edits with
  | nil => rfl
  | cons edit rest ih => rw [List.map_cons, editsAll, ih, Action.edits, List.singleton_append]

/-- Grouping neither adds nor drops nor reorders edits. -/
theorem editsAll_group (edits : List Edit) : editsAll (group (edits.map .edit)) = edits := by
  rw [group, editsAll_groupFrom, editsAll, List.nil_append, editsAll_map]

end Action

/-! ### Performing groups -/

namespace Draft

variable (target : Tree)

mutual

/-- To perform an action is to perform its edits one after the other. -/
theorem perform_eq : (draft : Draft) → (action : Action) →
    draft.perform target action = draft.applyAll target action.edits
  | draft, .edit edit => by
    rw [perform, Action.edits, applyAll, List.foldlM_cons]
    exact (bind_pure _).symm
  | draft, .multi members => by
    rw [perform, Action.edits, performAll_eq draft members]

theorem performAll_eq : (draft : Draft) → (actions : List Action) →
    draft.performAll target actions = draft.applyAll target (Action.editsAll actions)
  | draft, [] => rfl
  | draft, action :: rest => by
    rw [performAll, perform_eq draft action, Action.editsAll, applyAll, applyAll,
      List.foldlM_append]
    exact bind_congr fun next => performAll_eq next rest

end

end Draft

namespace Script.Task

variable {task : Task} {draft : Draft} {t w : Nat}

/-! ### Making a script -/

/-- What is noted about the nodes that only one of the two subtrees has, phase by phase. -/
def ledger (task : Task) (left : List Nat) : List Entry :=
  (task.sourceSide.transferred.map Report.node).map .movedOut ++ task.bare.map .deleted ++
    (task.visits.filter fun t => !task.targetSide.mapped t).map .inserted ++ left.map .deleted ++
    (task.targetSide.transferred.map Report.node).map .movedIn

/-- The edits of a script lead to a draft that stands for the target subtree. -/
structure Made (task : Task) (edits : List Edit) (draft : Draft) : Prop extends
    Standing task draft where
  sound : task.Sound draft
  recorded : task.start.applyAll task.target edits = .ok draft
  stands : ∀ t, task.target.Within task.targetRoot t → ∃ w, draft.standIns[t]? = some w
  entries : ∃ left : List Nat, left.Nodup ∧
    (∀ s, s ∈ left ↔ task.source.Within task.sourceRoot s ∧ task.sourceSide.mapped s = false ∧
      task.sourceSide.unmapped s = false) ∧
    edits.filterMap Entry.ofEdit? = task.ledger left

/-- **A script can always be made.** -/
theorem exists_made (hone : task.mapping.OneToOne) :
    ∃ edits draft, task.edits = .ok edits ∧ task.Made edits draft := by
  obtain ⟨hcleared, hcedits⟩ := cleared_clear hone
  obtain ⟨visited, hvisit, hvisiting⟩ := exists_visiting hone hcleared
  have hvisited := hvisiting.visited hcleared
  obtain ⟨reduced, hreduce, hreduced, hredits⟩ := hvisited.exists_reduced
  obtain ⟨complete, hcomplete, harriving, hentries⟩ :=
    exists_complete (hvisited.arriving hreduced)
  have hclearing : (task.sourceSide.transferred.map departure ++
        task.bare.map Edit.delete).filterMap Entry.ofEdit? =
      (task.sourceSide.transferred.map Report.node).map .movedOut ++ task.bare.map .deleted := by
    rw [List.filterMap_append, List.filterMap_map, List.filterMap_map, List.map_map]
    congr 1 <;> exact List.filterMap_eq_map_iff_forall_eq_some.2 fun _ _ => rfl
  have hleft : ((leftOver visited.draft).map Edit.delete).filterMap Entry.ofEdit? =
      (leftOver visited.draft).map .deleted := by
    rw [List.filterMap_map]
    exact List.filterMap_eq_map_iff_forall_eq_some.2 fun _ _ => rfl
  refine ⟨complete.edits, complete.draft, ?_, harriving.toStanding, harriving.sound,
    harriving.recorded, fun t ht => harriving.stands ht, leftOver visited.draft,
    hvisited.nodup_leftOver, fun s => hvisited.mem_leftOver hone, ?_⟩
  · unfold visits at hvisit
    rw [edits, hvisit, ok_bind, hreduce, ok_bind, hcomplete]
    rfl
  · rw [hentries, hredits, List.filterMap_append, hvisiting.entries, hcedits, hclearing, hleft]
    rfl

/-! ### Comparing the result with the target -/

/-- What stands for the nodes of a subtree has their kinds. -/
def KindsAgree (task : Task) (draft : Draft) (rose : Rose Nat) : Prop :=
  ∀ t ∈ rose.preorder, ∀ u : Nat, draft.standIns[t]? = some u →
    (draft.work.node u).kind = task.target.kind t

/-- Siblings are compared one by one with what stands for them. -/
theorem agreesAll_iff {roses : List (Rose Nat)}
    (hstands : ∀ rose ∈ roses, ∃ w, draft.standIns[rose.value]? = some w)
    (hroses : ∀ rose ∈ roses, ∀ w, draft.standIns[rose.value]? = some w →
      (draft.work.agrees task.target rose w = true ↔ task.KindsAgree draft rose)) :
    draft.work.agreesAll task.target roses
        ((roses.map Rose.value).filterMap (draft.standIns[·]?)) = true ↔
      ∀ rose ∈ roses, task.KindsAgree draft rose := by
  induction roses with
  | nil => simp [WorkTree.agreesAll]
  | cons rose roses ih =>
    obtain ⟨hstand, hstands⟩ := List.forall_mem_cons.1 hstands
    obtain ⟨hrose, hroses⟩ := List.forall_mem_cons.1 hroses
    obtain ⟨w, hw⟩ := hstand
    rw [List.map_cons, List.filterMap_cons_some hw, WorkTree.agreesAll, Bool.and_eq_true,
      hrose w hw, ih hstands hroses, List.forall_mem_cons]

/-- Whatever stands for the target subtree agrees with it if the kinds agree. -/
theorem Standing.agrees_iff (h : task.Standing draft)
    (hstands : ∀ t, task.target.Within task.targetRoot t → ∃ w, draft.standIns[t]? = some w)
    {rose : Rose Nat} (hrose : rose.Follows task.target.children)
    (hin : task.target.Within task.targetRoot rose.value)
    (hw : draft.standIns[rose.value]? = some w) :
    draft.work.agrees task.target rose w = true ↔ task.KindsAgree draft rose := by
  induction hrose generalizing w with
  | @node value below hvalues hfollows ih =>
    rw [Rose.value_node] at hin hw
    have hbelow : ∀ rose ∈ below, task.target.Within task.targetRoot rose.value := by
      intro rose hrose
      have hmem : rose.value ∈ task.target.children value := hvalues ▸ List.mem_map_of_mem hrose
      exact Leads.step (task.target.mem_children.1 hmem) hin
    have hall : draft.work.agreesAll task.target below (draft.work.children w) = true ↔
        ∀ rose ∈ below, task.KindsAgree draft rose := by
      rw [h.children_eq (some value) w hw, targetChildren, ← hvalues]
      exact agreesAll_iff (fun rose hrose => hstands rose.value (hbelow rose hrose))
        fun rose hrose w hw => ih rose hrose (hbelow rose hrose) hw
    have hlabel : (draft.work.node w).label = task.target.label value := h.label_eq value w hw
    rw [WorkTree.agrees, Bool.and_eq_true, Bool.and_eq_true, beq_iff_eq, beq_iff_eq, hall,
      KindsAgree, Rose.preorder_node, List.forall_mem_cons]
    constructor
    · rintro ⟨⟨hkind, -⟩, hrest⟩
      refine ⟨fun u hu => ?_, fun t ht => ?_⟩
      · obtain rfl : w = u := Option.some.inj (hw.symm.trans hu)
        exact hkind
      · obtain ⟨rose, hrose, ht⟩ := List.mem_flatMap.1 ht
        exact hrest rose hrose t ht
    · rintro ⟨hself, hrest⟩
      exact ⟨⟨hself w hw, hlabel⟩,
        fun rose hrose t ht => hrest t (List.mem_flatMap.2 ⟨rose, hrose, ht⟩)⟩

/-- The kinds of the result are those of the target exactly if paired nodes have equal kinds. -/
theorem Sound.kinds_iff (h : task.Sound draft) (hone : task.mapping.OneToOne) :
    task.KindsAgree draft (task.target.subtree task.targetRoot) ↔
      ∀ s t, task.Paired s t → task.source.kind s = task.target.kind t := by
  rw [KindsAgree, ← Tree.preorder_eq]
  have hpaired : ∀ s t, task.Paired s t → draft.standIns[t]? = some (task.number s) :=
    fun s t hpair => h.keeps t _ ((start_links hone t _).1.2 ⟨s, hpair, rfl⟩)
  constructor
  · intro hall s t hpair
    rw [← hall t (task.target.mem_preorder.2 hpair.2.2) _ (hpaired s t hpair)]
    exact (h.copy_node s hpair.2.1).1.symm
  · intro hall t _ u hu
    cases hstart : task.start.standIns[t]? with
    | none => exact (h.new_node t u hu hstart).2
    | some w =>
      obtain ⟨s, hpair, rfl⟩ := (start_links hone t w).1.1 hstart
      obtain rfl : u = task.number s := Option.some.inj (hu.symm.trans (hpaired s t hpair))
      rw [(h.copy_node s hpair.2.1).1]
      exact hall s t hpair

/-- The replay of a script compares the draft that the script was made on. -/
theorem Made.reaches_iff {edits : List Edit} (h : task.Made edits draft)
    (hone : task.mapping.OneToOne) :
    reaches task.target task.targetRoot draft = true ↔
      ∀ s t, task.Paired s t → task.source.kind s = task.target.kind t := by
  have hself : task.target.Within task.targetRoot task.targetRoot := Leads.refl _
  obtain ⟨w, hw⟩ := h.stands task.targetRoot hself
  have htop : draft.work.children WorkTree.top = [w] := by
    rw [h.children_eq none WorkTree.top rfl, targetChildren, List.filterMap_cons_some hw]
    rfl
  simp only [reaches, htop]
  rw [h.toStanding.agrees_iff h.stands (task.target.subtree_follows task.targetRoot)
    (by rwa [Tree.value_subtree]) (by rwa [Tree.value_subtree])]
  exact h.sound.kinds_iff hone

theorem exists_script (hone : task.mapping.OneToOne) :
    ∃ edits draft, task.script = .ok (Action.group (edits.map .edit)) ∧ task.Made edits draft := by
  obtain ⟨edits, draft, hedits, hmade⟩ := exists_made hone
  refine ⟨edits, draft, ?_, hmade⟩
  rw [script, hedits]
  rfl

theorem Made.replay_eq {edits : List Edit} (h : task.Made edits draft) :
    replay task.source task.target task.mapping task.sourceRoot task.targetRoot
        (Action.group (edits.map .edit)) =
      if reaches task.target task.targetRoot draft then .ok () else .error .replayDiffers := by
  have hrecorded := h.recorded
  unfold start at hrecorded
  rw [replay, Draft.performAll_eq, Action.editsAll_group, hrecorded]
  rfl

/-- **The round trip.**  A script can be made for every task with a one-to-one mapping, and its
replay succeeds exactly if all pairs of the mapping within the two subtrees have equal kinds. -/
theorem script_round_trip (task : Task) (hone : task.mapping.OneToOne) :
    ∃ actions, task.script = .ok actions ∧
      (replay task.source task.target task.mapping task.sourceRoot task.targetRoot actions =
          .ok () ↔
        ∀ s t, task.mapping.target? s = some t → task.source.Within task.sourceRoot s →
          task.target.Within task.targetRoot t → task.source.kind s = task.target.kind t) := by
  obtain ⟨edits, draft, hscript, hmade⟩ := exists_script hone
  refine ⟨_, hscript, ?_⟩
  have hkinds : (∀ s t, task.Paired s t → task.source.kind s = task.target.kind t) ↔
      ∀ s t, task.mapping.target? s = some t → task.source.Within task.sourceRoot s →
        task.target.Within task.targetRoot t → task.source.kind s = task.target.kind t :=
    forall_congr' fun s => forall_congr' fun t =>
      ⟨fun h hst hs ht => h ⟨hst, hs, ht⟩, fun h hpair => h hpair.1 hpair.2.1 hpair.2.2⟩
  rw [← hkinds, ← hmade.reaches_iff hone, hmade.replay_eq]
  split
  · rename_i hreach
    simp [hreach]
  · rename_i hreach
    simp [hreach]

/-- A node and its child change places, and what is below them leaves for another file. -/
theorem script_round_trip_swap :
    let task : Task :=
      { source := .ofNodes default "" #[{ kind := "a" }, { kind := "b", parent := some 0 },
          { kind := "c", parent := some 1 }]
        target := .ofNodes default "" #[{ kind := "b" }, { kind := "a", parent := some 0 }]
        mapping := (Mapping.empty.insert 0 1).insert 1 0
        movedOut := [{ node := 2, file := default }] }
    task.mapping.OneToOne ∧ ∃ actions, task.script = .ok actions ∧
      replay task.source task.target task.mapping task.sourceRoot task.targetRoot actions =
        .ok () := by
  intro task
  have hone : task.mapping.OneToOne :=
    (Mapping.oneToOne_empty.insert rfl rfl).insert
      (by rw [Mapping.target?_insert]; rfl) (by rw [Mapping.source?_insert]; rfl)
  obtain ⟨actions, hscript, hreplay⟩ := script_round_trip task hone
  refine ⟨hone, actions, hscript, hreplay.2 fun s t hst _ _ => ?_⟩
  have hpairs : (1 = s ∧ 0 = t) ∨ (0 = s ∧ 1 = t) := by
    simp only [task, Mapping.target?_insert] at hst
    split at hst
    · exact Or.inl ⟨‹_›, Option.some.inj hst⟩
    · split at hst
      · exact Or.inr ⟨‹_›, Option.some.inj hst⟩
      · cases hst
  rcases hpairs with ⟨rfl, rfl⟩ | ⟨rfl, rfl⟩ <;> rfl

end Script.Task

end Reshape
