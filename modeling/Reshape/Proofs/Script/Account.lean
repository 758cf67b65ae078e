import Mathlib
import Reshape.Proofs.Script.RoundTrip
import Reshape.TreeDiff

/-! # Every node is accounted for once

A node of the source subtree is paired with a node of the target subtree, or one deletion takes it
away, or one departure carries it off; and the same holds of the target subtree with insertions and
arrivals.  The edits that matter are read off the ledger of the script.  A node that is unpaired is
part of exactly one subtree that moves between files, if it is carried, and otherwise it is deleted
in the first phase or in the third, depending on whether something below it is paired. -/

namespace Reshape

namespace Edit

/-- Whether an edit deletes a source node. -/
def deletes (s : Nat) : Edit → Bool
  | .delete x => x == s
  | _ => false

/-- Whether a source node leaves with the subtree of an edit. -/
def carriesOff (source : Tree) (s : Nat) : Edit → Bool
  | .moveOut x _ _ => source.isAncestorOrSelf x s
  | _ => false

/-- Whether an edit inserts a target node. -/
def inserts (t : Nat) : Edit → Bool
  | .insert x _ _ => x == t
  | _ => false

/-- Whether a target node arrives with the subtree of an edit. -/
def bringsIn (target : Tree) (t : Nat) : Edit → Bool
  | .moveIn x _ _ _ _ => target.isAncestorOrSelf x t
  | _ => false

end Edit

namespace ScriptSide

variable {side : ScriptSide} {id : Nat}

/-- A carried node is part of exactly one subtree that is taken up, and another node of none. -/
theorem countP_transferred (hid : side.tree.Within side.root id) :
    (side.transferred.map Report.node).countP (fun a => side.tree.isAncestorOrSelf a id) =
      if side.carried id then 1 else 0 := by
  split
  · rename_i hcarried
    obtain ⟨a, ha, hida⟩ := exists_takenUp hid hcarried
    have hmem := mem_transferred_nodes.2 ha
    rw [← List.count_eq_one_of_mem side.nodup_transferred_nodes hmem]
    refine List.countP_congr fun b hb => ?_
    rw [side.tree.isAncestorOrSelf_iff, beq_iff_eq]
    constructor
    · exact fun hidb => (mem_transferred_nodes.1 hb).eq_of_within ha hidb hida
    · rintro rfl
      exact hida
  · rename_i hcarried
    refine List.countP_eq_zero.2 fun a ha hida => hcarried ?_
    exact (mem_transferred_nodes.1 ha).carried (side.tree.isAncestorOrSelf_iff.1 hida)

end ScriptSide

namespace Script

/-! ### Reading the ledger -/

/-- A node is paired, or one edit is about it alone, or one edit is about a subtree with it; and
only one of the three. -/
def AccountedOnce (paired : Prop) (alone within : Nat) : Prop :=
  paired ∧ alone = 0 ∧ within = 0 ∨ ¬ paired ∧ alone = 1 ∧ within = 0 ∨
    ¬ paired ∧ alone = 0 ∧ within = 1

theorem AccountedOnce.not_paired_iff {paired : Prop} {alone within : Nat}
    (h : AccountedOnce paired alone within) : ¬ paired ↔ 0 < alone ∨ 0 < within := by
  rcases h with ⟨h, rfl, rfl⟩ | ⟨h, rfl, rfl⟩ | ⟨h, rfl, rfl⟩ <;> simp [h]

namespace Task

variable {task : Task} {edits : List Edit} {draft : Draft} {left : List Nat} {s t : Nat}

/-- Counting entries phase by phase. -/
theorem countP_edits (h : edits.filterMap Entry.ofEdit? = task.ledger left) {p : Edit → Bool}
    (q : Entry → Bool) (hp : ∀ edit, p edit = ((Entry.ofEdit? edit).map q).getD false) :
    edits.countP p =
      (task.sourceSide.transferred.map Report.node).countP (fun a => q (.movedOut a)) +
        task.bare.countP (fun x => q (.deleted x)) +
        (task.visits.filter fun t => !task.targetSide.mapped t).countP (fun x => q (.inserted x)) +
        left.countP (fun x => q (.deleted x)) +
        (task.targetSide.transferred.map Report.node).countP (fun a => q (.movedIn a)) := by
  have hcount : edits.countP p = (edits.filterMap Entry.ofEdit?).countP q := by
    rw [List.countP_filterMap]
    exact List.countP_congr fun edit _ => by rw [hp edit]
  rw [hcount, h, ledger]
  simp only [List.countP_append, List.countP_map, Function.comp_def]

/-- **Source nodes are accounted for.** -/
theorem Made.source_accounted (h : task.Made edits draft) (hone : task.mapping.OneToOne)
    (hs : task.source.Within task.sourceRoot s) :
    AccountedOnce (∃ t, task.Paired s t) (edits.countP (Edit.deletes s))
      (edits.countP (Edit.carriesOff task.source s)) := by
  obtain ⟨left, hleft, hmem, hentries⟩ := h.entries
  have hdeletes : edits.countP (Edit.deletes s) = task.bare.count s + left.count s := by
    rw [countP_edits hentries (fun | .deleted x => x == s | _ => false)
      (fun edit => by cases edit <;> rfl)]
    simp [List.count]
  have hcarries : edits.countP (Edit.carriesOff task.source s) =
      if task.sourceSide.carried s then 1 else 0 := by
    rw [countP_edits hentries (fun | .movedOut x => task.source.isAncestorOrSelf x s | _ => false)
      (fun edit => by cases edit <;> rfl), ← ScriptSide.countP_transferred hs]
    simp [sourceSide]
  have hbare : task.bare.Nodup := (task.source.nodup_postorder _).filter _
  have hself : task.sourceSide.unmapped s = true → task.sourceSide.mapped s = false :=
    fun hunmapped => ScriptSide.unmapped_iff.1 hunmapped s (Leads.refl s)
  rw [hdeletes, hcarries, ← sourceSide_mapped hone hs]
  by_cases hmapped : task.sourceSide.mapped s = true
  · have hunmapped : ¬ task.sourceSide.unmapped s = true := by
      intro hunmapped
      rw [hself hunmapped] at hmapped
      cases hmapped
    have hcarried : ¬ task.sourceSide.carried s = true :=
      fun hcarried => hunmapped (ScriptSide.unmapped_of_carried hs hcarried)
    have hnot : s ∉ task.bare := fun hb => hunmapped (mem_bare.1 hb).2.1
    have hnot' : s ∉ left := by simp [hmem, hmapped]
    exact Or.inl ⟨hmapped, by rw [List.count_eq_zero_of_not_mem hnot,
      List.count_eq_zero_of_not_mem hnot'], if_neg hcarried⟩
  · by_cases hcarried : task.sourceSide.carried s = true
    · have hnot : s ∉ task.bare := by simp [mem_bare, hcarried]
      have hnot' : s ∉ left := by simp [hmem, ScriptSide.unmapped_of_carried hs hcarried]
      exact Or.inr (Or.inr ⟨hmapped, by rw [List.count_eq_zero_of_not_mem hnot,
        List.count_eq_zero_of_not_mem hnot'], if_pos hcarried⟩)
    -- What is neither paired nor carried is deleted, early or late.
    · refine Or.inr (Or.inl ⟨hmapped, ?_, if_neg hcarried⟩)
      by_cases hunmapped : task.sourceSide.unmapped s = true
      · have hin : s ∈ task.bare := mem_bare.2 ⟨hs, hunmapped, by simpa using hcarried⟩
        have hnot' : s ∉ left := by simp [hmem, hunmapped]
        rw [List.count_eq_one_of_mem hbare hin, List.count_eq_zero_of_not_mem hnot']
      · have hnot : s ∉ task.bare := fun hb => hunmapped (mem_bare.1 hb).2.1
        have hin : s ∈ left := (hmem s).2 ⟨hs, by simpa using hmapped, by simpa using hunmapped⟩
        rw [List.count_eq_zero_of_not_mem hnot, List.count_eq_one_of_mem hleft hin]

/-- **Target nodes are accounted for.** -/
theorem Made.target_accounted (h : task.Made edits draft) (hone : task.mapping.OneToOne)
    (ht : task.target.Within task.targetRoot t) :
    AccountedOnce (∃ s, task.Paired s t) (edits.countP (Edit.inserts t))
      (edits.countP (Edit.bringsIn task.target t)) := by
  obtain ⟨left, -, -, hentries⟩ := h.entries
  have hinserts : edits.countP (Edit.inserts t) =
      (task.visits.filter fun t => !task.targetSide.mapped t).count t := by
    rw [countP_edits hentries (fun | .inserted x => x == t | _ => false)
      (fun edit => by cases edit <;> rfl)]
    simp [List.count]
  have hbrings : edits.countP (Edit.bringsIn task.target t) =
      if task.targetSide.carried t then 1 else 0 := by
    rw [countP_edits hentries (fun | .movedIn x => task.target.isAncestorOrSelf x t | _ => false)
      (fun edit => by cases edit <;> rfl), ← ScriptSide.countP_transferred ht]
    simp [targetSide]
  have hvisits : (task.visits.filter fun t => !task.targetSide.mapped t).Nodup :=
    ((task.target.nodup_preorder _).filter _).filter _
  rw [hinserts, hbrings, ← targetSide_mapped hone]
  by_cases hmapped : task.targetSide.mapped t = true
  · have hcarried : ¬ task.targetSide.carried t = true := by
      intro hcarried
      have hunmapped := ScriptSide.unmapped_of_carried ht hcarried
      rw [ScriptSide.unmapped_iff.1 hunmapped t (Leads.refl t)] at hmapped
      cases hmapped
    have hnot : t ∉ task.visits.filter fun t => !task.targetSide.mapped t := by simp [hmapped]
    exact Or.inl ⟨hmapped, List.count_eq_zero_of_not_mem hnot, if_neg hcarried⟩
  · by_cases hcarried : task.targetSide.carried t = true
    · have hnot : t ∉ task.visits.filter fun t => !task.targetSide.mapped t := by
        simp [mem_visits, hcarried]
      exact Or.inr (Or.inr ⟨hmapped, List.count_eq_zero_of_not_mem hnot, if_pos hcarried⟩)
    · have hin : t ∈ task.visits.filter fun t => !task.targetSide.mapped t :=
        List.mem_filter.2 ⟨mem_visits.2 ⟨ht, by simpa using hcarried⟩, by simpa using hmapped⟩
      exact Or.inr (Or.inl ⟨hmapped, List.count_eq_one_of_mem hvisits hin, if_neg hcarried⟩)

end Task

end Script

/-! ### Whole trees -/

/-- Every node of a tree is below its root. -/
def Tree.SingleRoot (tree : Tree) : Prop :=
  ∀ id < tree.size, tree.Within tree.root id

theorem TreeDiff.contains_removed {source target : Tree} {mapping : Mapping}
    {actions : List Action} {s : Nat} :
    (ofScript source target mapping actions).removed.contains s = true ↔
      0 < (Action.editsAll actions).countP (Edit.deletes s) ∨
        0 < (Action.editsAll actions).countP (Edit.carriesOff source s) := by
  have hby : ∀ edit, s ∈ removedBy source edit ↔
      edit.deletes s = true ∨ edit.carriesOff source s = true := by
    intro edit
    cases edit with
    | delete x =>
      simp only [removedBy, Edit.deletes, Edit.carriesOff, List.mem_singleton, beq_iff_eq,
        Bool.false_eq_true, or_false]
      exact eq_comm
    | moveOut x =>
      simp only [removedBy, Edit.deletes, Edit.carriesOff, source.mem_preorder,
        source.isAncestorOrSelf_iff, Bool.false_eq_true, false_or]
    | _ => simp [removedBy, Edit.deletes, Edit.carriesOff]
  simp only [ofScript, Std.TreeSet.contains_ofList, List.contains_iff_mem, List.mem_flatMap, hby,
    List.countP_pos_iff, ← exists_or, and_or_left]

theorem TreeDiff.contains_added {source target : Tree} {mapping : Mapping}
    {actions : List Action} {t : Nat} :
    (ofScript source target mapping actions).added.contains t = true ↔
      0 < (Action.editsAll actions).countP (Edit.inserts t) ∨
        0 < (Action.editsAll actions).countP (Edit.bringsIn target t) := by
  have hby : ∀ edit, t ∈ addedBy target edit ↔
      edit.inserts t = true ∨ edit.bringsIn target t = true := by
    intro edit
    cases edit with
    | insert x =>
      simp only [addedBy, Edit.inserts, Edit.bringsIn, List.mem_singleton, beq_iff_eq,
        Bool.false_eq_true, or_false]
      exact eq_comm
    | moveIn x =>
      simp only [addedBy, Edit.inserts, Edit.bringsIn, target.mem_preorder,
        target.isAncestorOrSelf_iff, Bool.false_eq_true, false_or]
    | _ => simp [addedBy, Edit.inserts, Edit.bringsIn]
  simp only [ofScript, Std.TreeSet.contains_ofList, List.contains_iff_mem, List.mem_flatMap, hby,
    List.countP_pos_iff, ← exists_or, and_or_left]

namespace Script.Task

/-- **Every node is accounted for exactly once**, on both sides.  For whole trees, whose mapping
stays within them, a diff therefore lists as removed or added exactly the nodes without a
partner. -/
theorem nodes_accounted_once (task : Task) (hone : task.mapping.OneToOne) :
    ∃ actions, task.script = .ok actions ∧
      (∀ s, task.source.Within task.sourceRoot s →
        AccountedOnce
          (∃ t, task.mapping.target? s = some t ∧ task.target.Within task.targetRoot t)
          ((Action.editsAll actions).countP (Edit.deletes s))
          ((Action.editsAll actions).countP (Edit.carriesOff task.source s))) ∧
      (∀ t, task.target.Within task.targetRoot t →
        AccountedOnce
          (∃ s, task.mapping.target? s = some t ∧ task.source.Within task.sourceRoot s)
          ((Action.editsAll actions).countP (Edit.inserts t))
          ((Action.editsAll actions).countP (Edit.bringsIn task.target t))) ∧
      (task.sourceRoot = task.source.root → task.targetRoot = task.target.root →
        task.source.SingleRoot → task.target.SingleRoot →
        (∀ s t, task.mapping.target? s = some t → s < task.source.size ∧ t < task.target.size) →
        let diff := TreeDiff.ofScript task.source task.target task.mapping actions
        (∀ s < task.source.size, diff.removed.contains s = !task.mapping.hasSource s) ∧
          ∀ t < task.target.size, diff.added.contains t = !task.mapping.hasTarget t) := by
  obtain ⟨edits, draft, hscript, hmade⟩ := exists_script hone
  have hsource : ∀ s, task.source.Within task.sourceRoot s →
      AccountedOnce (∃ t, task.mapping.target? s = some t ∧ task.target.Within task.targetRoot t)
        (edits.countP (Edit.deletes s)) (edits.countP (Edit.carriesOff task.source s)) := by
    intro s hs
    have hpaired : (∃ t, task.Paired s t) ↔
        ∃ t, task.mapping.target? s = some t ∧ task.target.Within task.targetRoot t :=
      exists_congr fun t => ⟨fun h => ⟨h.1, h.2.2⟩, fun h => ⟨h.1, hs, h.2⟩⟩
    rw [← hpaired]
    exact hmade.source_accounted hone hs
  have htarget : ∀ t, task.target.Within task.targetRoot t →
      AccountedOnce (∃ s, task.mapping.target? s = some t ∧ task.source.Within task.sourceRoot s)
        (edits.countP (Edit.inserts t)) (edits.countP (Edit.bringsIn task.target t)) := by
    intro t ht
    have hpaired : (∃ s, task.Paired s t) ↔
        ∃ s, task.mapping.target? s = some t ∧ task.source.Within task.sourceRoot s :=
      exists_congr fun s => ⟨fun h => ⟨h.1, h.2.1⟩, fun h => ⟨h.1, h.2, ht⟩⟩
    rw [← hpaired]
    exact hmade.target_accounted hone ht
  refine ⟨_, hscript, ?_, ?_, ?_⟩
  · rw [Action.editsAll_group]
    exact hsource
  · rw [Action.editsAll_group]
    exact htarget
  · intro hsroot htroot hssingle htsingle hrange diff
    rw [hsroot, htroot] at hsource htarget
    refine ⟨fun s hs => ?_, fun t ht => ?_⟩
    · rw [Bool.eq_iff_iff, TreeDiff.contains_removed, Action.editsAll_group,
        ← (hsource s (hssingle s hs)).not_paired_iff, Bool.not_eq_true', Mapping.hasSource,
        ← Bool.not_eq_true, Option.isSome_iff_exists]
      refine not_congr (exists_congr fun t => ⟨fun h => h.1, fun h => ⟨h, ?_⟩⟩)
      exact htsingle t (hrange s t h).2
    · rw [Bool.eq_iff_iff, TreeDiff.contains_added, Action.editsAll_group,
        ← (htarget t (htsingle t ht)).not_paired_iff, Bool.not_eq_true', Mapping.hasTarget,
        ← Bool.not_eq_true, Option.isSome_iff_exists]
      refine not_congr (exists_congr fun s => ?_)
      rw [← hone s t]
      exact ⟨fun h => h.1, fun h => ⟨h, hssingle s (hrange s t h).1⟩⟩

/-- A node and its child change places; one leaf leaves for another file, another one is deleted,
and a third one is inserted. -/
theorem nodes_accounted_once_swap :
    let task : Task :=
      { source := .ofNodes default "" #[{ kind := "a" }, { kind := "b", parent := some 0 },
          { kind := "c", parent := some 1 }, { kind := "d", parent := some 0 }]
        target := .ofNodes default "" #[{ kind := "b" }, { kind := "a", parent := some 0 },
          { kind := "e", parent := some 1 }]
        mapping := (Mapping.empty.insert 0 1).insert 1 0
        movedOut := [{ node := 2, file := default }] }
    task.mapping.OneToOne ∧ ∃ actions, task.script = .ok actions ∧
      AccountedOnce (∃ t, task.mapping.target? 2 = some t ∧ task.target.Within 0 t)
        ((Action.editsAll actions).countP (Edit.deletes 2))
        ((Action.editsAll actions).countP (Edit.carriesOff task.source 2)) ∧
      (∀ s < 4,
        (TreeDiff.ofScript task.source task.target task.mapping actions).removed.contains s =
        !task.mapping.hasSource s) ∧
      ∀ t < 3, (TreeDiff.ofScript task.source task.target task.mapping actions).added.contains t =
        !task.mapping.hasTarget t := by
  intro task
  have hone : task.mapping.OneToOne :=
    (Mapping.oneToOne_empty.insert rfl rfl).insert
      (by rw [Mapping.target?_insert]; rfl) (by rw [Mapping.source?_insert]; rfl)
  have hsource : task.source.SingleRoot := by
    intro id hid
    have hid : id < 4 := hid
    refine task.source.isAncestorOrSelf_iff.1 ?_
    interval_cases id <;> decide
  have htarget : task.target.SingleRoot := by
    intro id hid
    have hid : id < 3 := hid
    refine task.target.isAncestorOrSelf_iff.1 ?_
    interval_cases id <;> decide
  have hrange : ∀ s t, task.mapping.target? s = some t →
      s < task.source.size ∧ t < task.target.size := by
    intro s t hst
    simp only [task, Mapping.target?_insert] at hst
    split at hst
    · rename_i hs
      rw [← hs, ← Option.some.inj hst]
      decide
    · split at hst
      · rename_i hs
        rw [← hs, ← Option.some.inj hst]
        decide
      · cases hst
  obtain ⟨actions, hscript, hnodes, -, hwhole⟩ := nodes_accounted_once task hone
  obtain ⟨hremoved, hadded⟩ := hwhole rfl rfl hsource htarget hrange
  exact ⟨hone, actions, hscript, hnodes 2 (hsource 2 (by decide)), hremoved, hadded⟩

end Script.Task

end Reshape
