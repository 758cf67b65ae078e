import Mathlib
import Reshape.Proofs.Script.Changes

/-! # A script updates and moves no more than it has to

The changes of a script are read off its ledger.  No change is listed twice: a pair whose parents do
not correspond is moved when its target node is visited, and a pair whose parents correspond can
only be moved when they are visited.  The second kind of move spares a longest alignment of the two
orders in which the siblings stand. -/

namespace Reshape

namespace Edit

/-- Whether an edit updates the nodes of a pair. -/
def updates (s t : Nat) : Edit → Bool
  | .update x y => x == s && y == t
  | _ => false

/-- Whether an edit moves the nodes of a pair. -/
def moves (s t : Nat) : Edit → Bool
  | .move x y _ _ => x == s && y == t
  | _ => false

/-- Whether an edit moves a child of a source node that becomes a child of a target node. -/
def movesBelow (source target : Tree) (p q : Nat) : Edit → Bool
  | .move x y _ _ => source.parent x == some p && target.parent y == some q
  | _ => false

end Edit

namespace Script

namespace Change

/-- The source node that a change is about. -/
def source : Change → Nat
  | updated s _ | moved s _ => s

/-- The target node that a change is about. -/
def target : Change → Nat
  | updated _ t | moved _ t => t

end Change

namespace Task

variable {task : Task} {c : Change} {s t p q v : Nat}

/-- The parents of the nodes of a pair correspond: both nodes are the roots, or neither is one and
their parents are paired. -/
def Corresponds (task : Task) (s t : Nat) : Prop :=
  s = task.sourceRoot ∧ t = task.targetRoot ∨
    s ≠ task.sourceRoot ∧ t ≠ task.targetRoot ∧
      ∃ p q, task.source.parent s = some p ∧ task.target.parent t = some q ∧ task.Paired p q

theorem Paired.inPlace_iff (h : task.Paired s t) (hone : task.mapping.OneToOne) :
    task.InPlace s t ↔ task.Corresponds s t := by
  obtain ⟨-, hs, ht⟩ := h
  unfold InPlace Corresponds
  rw [start_parent hs]
  by_cases htroot : t = task.targetRoot
  · have htop : task.start.place? (task.targetParent t) = some WorkTree.top := by
      rw [targetParent, if_pos htroot]
      rfl
    rw [htop]
    by_cases hsroot : s = task.sourceRoot
    · simp [hsroot, htroot]
    · obtain ⟨p, hp, -⟩ := hs.eq_or_step.resolve_left hsroot
      simp [hsroot, htroot, hp, task.number_ne_top p]
  · obtain ⟨q, hq, -⟩ := ht.eq_or_step.resolve_left htroot
    have hplace : task.start.place? (task.targetParent t) = task.start.standIns[q]? := by
      rw [targetParent, if_neg htroot, hq]
      rfl
    rw [hplace]
    by_cases hsroot : s = task.sourceRoot
    · -- No target node stands at the top.
      have hnot : some WorkTree.top ≠ task.start.standIns[q]? :=
        fun heq => ((sound_start hone).link_lt q _ heq.symm).2 rfl
      simp [hsroot, htroot, hnot]
    · obtain ⟨p, hp, hwithin⟩ := hs.eq_or_step.resolve_left hsroot
      have hlink : some (task.number p) = task.start.standIns[q]? ↔ task.Paired p q := by
        rw [eq_comm, (start_links hone q _).1]
        constructor
        · rintro ⟨x, hpair, heq⟩
          exact number_inj hwithin heq ▸ hpair
        · exact fun hpair => ⟨p, hpair, rfl⟩
      simp [hsroot, htroot, hp, hq, hlink]

/-! ### Reading the ledger -/

theorem Paired.right_unique {s' : Nat} (h : task.Paired s t) (h' : task.Paired s' t)
    (hone : task.mapping.OneToOne) : s = s' :=
  Option.some.inj (((hone s t).1 h.1).symm.trans ((hone s' t).1 h'.1))

/-- A pair that is moved among its siblings has corresponding parents. -/
theorem Paired.of_mem_shifted (h : task.Paired p q) (hone : task.mapping.OneToOne)
    (ht : t ∈ task.shifted p q) : task.target.parent t = some q ∧
      ∃ s, task.Paired s t ∧ task.source.parent s = some p ∧ task.Corresponds s t := by
  obtain ⟨hq, s, hs, hp⟩ := mem_sharedAfter.1 (List.mem_filter.1 ht).1
  refine ⟨hq, s, h.child ((hone s t).2 hs) hp hq, hp, Or.inr ⟨?_, ?_, p, q, hp, hq, h⟩⟩
  · exact task.source.ne_root_of_parent h.2.1 hp
  · exact task.target.ne_root_of_parent h.2.2 hq

theorem mem_ownChanges (hone : task.mapping.OneToOne) : c ∈ task.ownChanges v ↔
    ∃ s, task.Paired s v ∧ (c = .updated s v ∧ task.source.label s ≠ task.target.label v ∨
      c = .moved s v ∧ ¬ task.Corresponds s v) := by
  unfold ownChanges
  cases hsource : task.sourceOf? v with
  | none =>
    simp only [List.not_mem_nil, false_iff, not_exists, not_and]
    intro s hpair
    rw [(sourceOf?_eq_some hone).2 hpair] at hsource
    cases hsource
  | some s =>
    have hpair := (sourceOf?_eq_some hone).1 hsource
    have hchange : c ∈ (if task.source.label s = task.target.label v then [] else [.updated s v]) ++
        (if task.InPlace s v then [] else [.moved s v]) ↔
        c = .updated s v ∧ task.source.label s ≠ task.target.label v ∨
          c = .moved s v ∧ ¬ task.Corresponds s v := by
      rw [List.mem_append, ← hpair.inPlace_iff hone]
      by_cases hlabel : task.source.label s = task.target.label v <;>
        by_cases hplace : task.InPlace s v <;> simp [hlabel, hplace]
    rw [hchange]
    constructor
    · exact fun hc => ⟨s, hpair, hc⟩
    · rintro ⟨s', hpair', hc⟩
      rwa [hpair.right_unique hpair' hone]

theorem mem_siblingChanges (hone : task.mapping.OneToOne) : c ∈ task.siblingChanges v ↔
    ∃ p s t, task.Paired p v ∧ t ∈ task.shifted p v ∧ task.Paired s t ∧ c = .moved s t := by
  unfold siblingChanges
  cases hsource : task.sourceOf? v with
  | none =>
    simp only [List.not_mem_nil, false_iff]
    rintro ⟨p, -, -, hpair, -⟩
    rw [(sourceOf?_eq_some hone).2 hpair] at hsource
    cases hsource
  | some p =>
    have hpair := (sourceOf?_eq_some hone).1 hsource
    simp only [List.mem_filterMap, Option.map_eq_some_iff, sourceOf?_eq_some hone]
    constructor
    · rintro ⟨t, ht, s, hst, rfl⟩
      exact ⟨p, s, t, hpair, ht, hst, rfl⟩
    · rintro ⟨p', s, t, hpair', ht, hst, rfl⟩
      obtain rfl := hpair.right_unique hpair' hone
      exact ⟨t, ht, s, hst, rfl⟩

/-- The ledger of a task. -/
def noted (task : Task) : List Change :=
  task.visits.flatMap task.changes

/-- Both nodes of a pair are visited. -/
theorem Paired.mem_visits (h : task.Paired s t) (hone : task.mapping.OneToOne) :
    t ∈ task.visits := by
  refine Task.mem_visits.2 ⟨h.2.2, ?_⟩
  by_contra hcarried
  have hunmapped := ScriptSide.unmapped_of_carried h.2.2 (Bool.eq_true_of_not_eq_false hcarried)
  have hmapped := (targetSide_mapped hone).2 ⟨s, h⟩
  rw [ScriptSide.unmapped_iff.1 hunmapped t (Leads.refl t)] at hmapped
  cases hmapped

/-- **What the ledger lists.**  A pair with different labels is updated; a pair is moved if its
parents do not correspond, or to bring the children of its parents into order. -/
theorem mem_noted (hone : task.mapping.OneToOne) : c ∈ task.noted ↔
    ∃ s t, task.Paired s t ∧ (c = .updated s t ∧ task.source.label s ≠ task.target.label t ∨
      c = .moved s t ∧ (¬ task.Corresponds s t ∨
        ∃ p q, task.Paired p q ∧ t ∈ task.shifted p q)) := by
  simp only [noted, changes, List.mem_flatMap, List.mem_append, mem_ownChanges hone,
    mem_siblingChanges hone]
  constructor
  · rintro ⟨v, -, ⟨s, hpair, hc | ⟨hc, hplace⟩⟩ | ⟨p, s, t, hpair, ht, hst, hc⟩⟩
    · exact ⟨s, v, hpair, Or.inl hc⟩
    · exact ⟨s, v, hpair, Or.inr ⟨hc, Or.inl hplace⟩⟩
    · exact ⟨s, t, hst, Or.inr ⟨hc, Or.inr ⟨p, v, hpair, ht⟩⟩⟩
  · rintro ⟨s, t, hst, hc | ⟨hc, hplace | ⟨p, q, hpair, ht⟩⟩⟩
    · exact ⟨t, hst.mem_visits hone, Or.inl ⟨s, hst, Or.inl hc⟩⟩
    · exact ⟨t, hst.mem_visits hone, Or.inl ⟨s, hst, Or.inr ⟨hc, hplace⟩⟩⟩
    · exact ⟨q, hpair.mem_visits hone, Or.inr ⟨p, s, t, hpair, ht, hst, hc⟩⟩

theorem nodup_siblingChanges (task : Task) (v : Nat) : (task.siblingChanges v).Nodup := by
  unfold siblingChanges
  split
  · exact List.nodup_nil
  · refine List.Nodup.filterMap ?_ (((task.target.nodup_children v).filter _).filter _)
    intro d d' change hd hd'
    obtain ⟨s, -, rfl⟩ := Option.map_eq_some_iff.1 hd
    obtain ⟨s', -, heq⟩ := Option.map_eq_some_iff.1 hd'
    exact (Change.moved.inj heq).2.symm

theorem nodup_ownChanges (task : Task) (v : Nat) : (task.ownChanges v).Nodup := by
  unfold ownChanges
  split
  · exact List.nodup_nil
  · rename_i s _
    by_cases hlabel : task.source.label s = task.target.label v <;>
      by_cases hplace : task.InPlace s v <;> simp [hlabel, hplace]

theorem target_of_mem_ownChanges (hone : task.mapping.OneToOne) (hc : c ∈ task.ownChanges v) :
    c.target = v := by
  obtain ⟨s, -, ⟨rfl, -⟩ | ⟨rfl, -⟩⟩ := (mem_ownChanges hone).1 hc
  · rfl
  · rfl

theorem parent_of_mem_siblingChanges (hone : task.mapping.OneToOne)
    (hc : c ∈ task.siblingChanges v) : task.target.parent c.target = some v := by
  obtain ⟨p, s, t, hpair, ht, -, rfl⟩ := (mem_siblingChanges hone).1 hc
  exact (hpair.of_mem_shifted hone ht).1

/-- A pair that is moved during the visit to its target node is not moved among its siblings. -/
theorem notMem_siblingChanges (hone : task.mapping.OneToOne) {v' : Nat}
    (hc : c ∈ task.ownChanges v) : c ∉ task.siblingChanges v' := by
  intro hsibling
  obtain ⟨p, s, t, hpair, ht, hst, rfl⟩ := (mem_siblingChanges hone).1 hsibling
  obtain ⟨-, s', hst', -, hcorresponds⟩ := hpair.of_mem_shifted hone ht
  obtain rfl := hst.right_unique hst' hone
  obtain ⟨x, -, ⟨heq, -⟩ | ⟨heq, hnot⟩⟩ := (mem_ownChanges hone).1 hc
  · cases heq
  · obtain ⟨rfl, rfl⟩ := Change.moved.inj heq
    exact hnot hcorresponds

/-- A change is made during one visit only. -/
theorem eq_of_mem_changes (hone : task.mapping.OneToOne) {v' : Nat} (hc : c ∈ task.changes v)
    (hc' : c ∈ task.changes v') : v = v' := by
  rcases List.mem_append.1 hc with hown | hsibling
  · rcases List.mem_append.1 hc' with hown' | hsibling'
    · rw [← target_of_mem_ownChanges hone hown, target_of_mem_ownChanges hone hown']
    · exact absurd hsibling' (notMem_siblingChanges hone hown)
  · rcases List.mem_append.1 hc' with hown' | hsibling'
    · exact absurd hsibling (notMem_siblingChanges hone hown')
    · exact Option.some.inj ((parent_of_mem_siblingChanges hone hsibling).symm.trans
        (parent_of_mem_siblingChanges hone hsibling'))

/-- **No change is made twice.** -/
theorem nodup_noted (hone : task.mapping.OneToOne) : task.noted.Nodup := by
  refine List.nodup_flatMap.2 ⟨fun v _ => ?_, ?_⟩
  · exact List.nodup_append'.2 ⟨task.nodup_ownChanges v, task.nodup_siblingChanges v,
      fun c hown hsibling => notMem_siblingChanges hone hown hsibling⟩
  · have hvisits : task.visits.Nodup := (task.target.nodup_preorder _).filter _
    exact hvisits.imp fun hne c hc hc' => hne (eq_of_mem_changes hone hc hc')

/-! ### Counting moves among siblings -/

/-- The two orders of siblings have the same members. -/
theorem length_sharedAfter (hone : task.mapping.OneToOne) (p q : Nat) :
    (task.sharedAfter p q).length = (task.sharedBefore p q).length := by
  have hperm : ((task.sharedBefore p q).map fun s => (task.mapping.target? s).getD 0).Perm
      (task.sharedAfter p q) := by
    refine (List.perm_ext_iff_of_nodup (List.Nodup.map_on ?_ ?_) ?_).2 fun t => ?_
    · intro s hs s' hs' heq
      obtain ⟨-, t, ht, -⟩ := mem_sharedBefore.1 hs
      obtain ⟨-, t', ht', -⟩ := mem_sharedBefore.1 hs'
      rw [ht, ht', Option.getD_some, Option.getD_some] at heq
      subst heq
      exact Option.some.inj (((hone s t).1 ht).symm.trans ((hone s' t).1 ht'))
    · exact (task.source.nodup_children p).filter _
    · exact (task.target.nodup_children q).filter _
    rw [List.mem_map, mem_sharedAfter]
    constructor
    · rintro ⟨s, hs, rfl⟩
      obtain ⟨hp, t, ht, hq⟩ := mem_sharedBefore.1 hs
      rw [ht]
      exact ⟨hq, s, (hone s t).1 ht, hp⟩
    · rintro ⟨hq, s, hs, hp⟩
      have ht := (hone s t).2 hs
      exact ⟨s, mem_sharedBefore.2 ⟨hp, t, ht, hq⟩, by rw [ht]; rfl⟩
  rw [← hperm.length_eq, List.length_map]

/-- All siblings are moved but for those of the alignment. -/
theorem length_shifted (task : Task) (p q : Nat) :
    (task.shifted p q).length + (Sequence.align (fun s t => task.mapping.target? s == some t)
      (task.sharedBefore p q) (task.sharedAfter p q)).length = (task.sharedAfter p q).length := by
  have hsub : (task.kept p q).Sublist (task.sharedAfter p q) :=
    (Sequence.isAlignment_align _ _ _).sublist_right 0
  have hnodup : (task.sharedAfter p q).Nodup := (task.target.nodup_children q).filter _
  have hperm : ((task.sharedAfter p q).filter (task.kept p q).contains).Perm (task.kept p q) := by
    refine (List.perm_ext_iff_of_nodup (hnodup.filter _) (hnodup.sublist hsub)).2 fun t => ?_
    rw [List.mem_filter, List.contains_iff_mem]
    exact ⟨And.right, fun ht => ⟨hsub.subset ht, ht⟩⟩
  have hkept : (task.kept p q).length = (Sequence.align
      (fun s t => task.mapping.target? s == some t) (task.sharedBefore p q)
      (task.sharedAfter p q)).length := List.length_map _
  have hsplit := (task.sharedAfter p q).length_eq_length_filter_add (task.kept p q).contains
  rw [hperm.length_eq, hkept] at hsplit
  rw [hsplit, Nat.add_comm]
  rfl

/-- Whether a change moves a child of a source node that becomes a child of a target node. -/
def movedBelow (task : Task) (p q : Nat) : Change → Bool
  | .moved s t => task.source.parent s == some p && task.target.parent t == some q
  | .updated _ _ => false

/-- The moves among the children of a pair are those of the visit to its target node. -/
theorem Paired.countP_movedBelow (h : task.Paired p q) (hone : task.mapping.OneToOne) :
    task.noted.countP (task.movedBelow p q) = (task.shifted p q).length := by
  have hperm : (task.noted.filter (task.movedBelow p q)).Perm (task.siblingChanges q) := by
    refine (List.perm_ext_iff_of_nodup ((nodup_noted hone).filter _)
      (task.nodup_siblingChanges q)).2 fun c => ?_
    rw [List.mem_filter, mem_noted hone, mem_siblingChanges hone]
    constructor
    · rintro ⟨⟨s, t, hst, ⟨rfl, -⟩ | ⟨rfl, hmoved⟩⟩, hbelow⟩
      · cases hbelow
      · rw [movedBelow, Bool.and_eq_true, beq_iff_eq, beq_iff_eq] at hbelow
        obtain ⟨hp, hq⟩ := hbelow
        have hcorresponds : task.Corresponds s t :=
          Or.inr ⟨task.source.ne_root_of_parent h.2.1 hp, task.target.ne_root_of_parent h.2.2 hq,
            p, q, hp, hq, h⟩
        obtain ⟨p', q', hpair, ht⟩ := hmoved.resolve_left fun hnot => hnot hcorresponds
        obtain rfl := Option.some.inj ((hpair.of_mem_shifted hone ht).1.symm.trans hq)
        exact ⟨p', s, t, hpair, ht, hst, rfl⟩
    · rintro ⟨p', s, t, hpair, ht, hst, rfl⟩
      obtain rfl := h.right_unique hpair hone
      obtain ⟨hq, s', hst', hp, -⟩ := h.of_mem_shifted hone ht
      obtain rfl := hst.right_unique hst' hone
      refine ⟨⟨s, t, hst, Or.inr ⟨rfl, Or.inr ⟨p, q, h, ht⟩⟩⟩, ?_⟩
      rw [movedBelow, hp, hq]
      simp
  rw [List.countP_eq_length_filter, hperm.length_eq, siblingChanges,
    (sourceOf?_eq_some hone).2 h]
  refine List.filterMap_length_eq_length.2 fun t ht => ?_
  obtain ⟨-, s, hst, -⟩ := h.of_mem_shifted hone ht
  rw [(sourceOf?_eq_some hone).2 hst]
  rfl

/-! ### Counting edits -/

theorem countP_of_noted {edits : List Edit} {noted : List Change}
    (h : edits.filterMap Change.ofEdit? = noted) {f : Edit → Bool} (g : Change → Bool)
    (hf : ∀ edit, f edit = ((Change.ofEdit? edit).map g).getD false) :
    edits.countP f = noted.countP g := by
  rw [← h, List.countP_filterMap]
  exact List.countP_congr fun edit _ => by rw [hf edit]

theorem countP_updates {edits : List Edit} {noted : List Change}
    (h : edits.filterMap Change.ofEdit? = noted) (s t : Nat) :
    edits.countP (Edit.updates s t) = noted.count (.updated s t) := by
  refine countP_of_noted h (· == .updated s t) fun edit => ?_
  rw [Bool.eq_iff_iff]
  cases edit <;> simp [Edit.updates, Change.ofEdit?]

theorem countP_moves {edits : List Edit} {noted : List Change}
    (h : edits.filterMap Change.ofEdit? = noted) (s t : Nat) :
    edits.countP (Edit.moves s t) = noted.count (.moved s t) := by
  refine countP_of_noted h (· == .moved s t) fun edit => ?_
  rw [Bool.eq_iff_iff]
  cases edit <;> simp [Edit.moves, Change.ofEdit?]

/-- The ledger is about pairs. -/
theorem paired_of_mem_noted (hone : task.mapping.OneToOne) (hc : c ∈ task.noted) :
    task.Paired c.source c.target := by
  obtain ⟨s, t, hst, ⟨rfl, -⟩ | ⟨rfl, -⟩⟩ := (mem_noted hone).1 hc
  · exact hst
  · exact hst

/-- A pair is updated exactly if its labels differ. -/
theorem Paired.count_updated (h : task.Paired s t) (hone : task.mapping.OneToOne) :
    task.noted.count (.updated s t) =
      if task.source.label s = task.target.label t then 0 else 1 := by
  by_cases hlabel : task.source.label s = task.target.label t
  · rw [if_pos hlabel]
    refine List.count_eq_zero_of_not_mem fun hmem => ?_
    obtain ⟨x, y, -, ⟨heq, hne⟩ | ⟨heq, -⟩⟩ := (mem_noted hone).1 hmem
    · cases heq
      exact hne hlabel
    · cases heq
  · rw [if_neg hlabel]
    exact List.count_eq_one_of_mem (nodup_noted hone)
      ((mem_noted hone).2 ⟨s, t, h, Or.inl ⟨rfl, hlabel⟩⟩)

/-- **Updates and moves are exact.**  In the script for a one-to-one mapping, a pair is updated once
if the labels differ and not at all otherwise.  It is moved at most once, and it is moved if its
parents do not correspond.  Of the children of a pair that are paired with each other, all are moved
but for the length of a longest alignment of their two orders.  Nothing else is updated or moved. -/
theorem updates_and_moves_exact (task : Task) (hone : task.mapping.OneToOne) :
    ∃ actions, task.script = .ok actions ∧
      (∀ s t, task.Paired s t →
        (Action.editsAll actions).countP (Edit.updates s t) =
          (if task.source.label s = task.target.label t then 0 else 1) ∧
        (Action.editsAll actions).countP (Edit.moves s t) ≤ 1 ∧
        (¬ task.Corresponds s t → (Action.editsAll actions).countP (Edit.moves s t) = 1)) ∧
      (∀ p q, task.Paired p q → ∃ longest,
        Sequence.IsLongest (fun s t => task.mapping.target? s == some t) (task.sharedBefore p q)
          (task.sharedAfter p q) longest ∧
        (Action.editsAll actions).countP (Edit.movesBelow task.source task.target p q) + longest =
          (task.sharedBefore p q).length) ∧
      (∀ s t, .update s t ∈ Action.editsAll actions → task.Paired s t) ∧
      ∀ s t parent position, .move s t parent position ∈ Action.editsAll actions →
        task.Paired s t := by
  obtain ⟨edits, draft, hedits, -⟩ := exists_made hone
  have hnoted : edits.filterMap Change.ofEdit? = task.noted := noted_of_edits hone hedits
  have hscript : task.script = .ok (Action.group (edits.map .edit)) := by
    rw [script, hedits]
    rfl
  refine ⟨_, hscript, ?_⟩
  rw [Action.editsAll_group]
  refine ⟨fun s t hst => ⟨?_, ?_, fun hnot => ?_⟩, fun p q hpq => ⟨_,
    Sequence.isLongest_align _ _ _, ?_⟩, fun s t hmem => ?_, fun s t y k hmem => ?_⟩
  · rw [countP_updates hnoted, hst.count_updated hone]
  · rw [countP_moves hnoted]
    exact List.nodup_iff_count_le_one.1 (nodup_noted hone) _
  · rw [countP_moves hnoted]
    exact List.count_eq_one_of_mem (nodup_noted hone)
      ((mem_noted hone).2 ⟨s, t, hst, Or.inr ⟨rfl, Or.inl hnot⟩⟩)
  · rw [countP_of_noted hnoted (task.movedBelow p q) fun edit => by cases edit <;> rfl,
      hpq.countP_movedBelow hone, task.length_shifted, length_sharedAfter hone]
  · have hchange : .updated s t ∈ task.noted := hnoted ▸ List.mem_filterMap.2 ⟨_, hmem, rfl⟩
    exact paired_of_mem_noted hone hchange
  · have hchange : .moved s t ∈ task.noted := hnoted ▸ List.mem_filterMap.2 ⟨_, hmem, rfl⟩
    exact paired_of_mem_noted hone hchange

/-- Two siblings change places, one of them with a new label, and what is below the third one moves
to another parent. -/
theorem updates_and_moves_exact_rotation :
    let task : Task :=
      { source := .ofNodes default "" #[{ kind := "a" },
          { kind := "b", label := "x", parent := some 0 }, { kind := "c", parent := some 0 },
          { kind := "d", parent := some 0 }, { kind := "e", parent := some 3 }]
        target := .ofNodes default "" #[{ kind := "a" }, { kind := "c", parent := some 0 },
          { kind := "b", label := "y", parent := some 0 }, { kind := "d", parent := some 0 },
          { kind := "e", parent := some 2 }]
        mapping := ((((Mapping.empty.insert 0 0).insert 1 2).insert 2 1).insert 3 3).insert 4 4 }
    task.mapping.OneToOne ∧ task.Paired 0 0 ∧ task.Paired 1 2 ∧ task.Paired 4 4 ∧
      ¬ task.Corresponds 4 4 ∧ ∃ actions, task.script = .ok actions ∧
        (Action.editsAll actions).countP (Edit.updates 1 2) = 1 ∧
        (Action.editsAll actions).countP (Edit.moves 4 4) = 1 ∧
        (Action.editsAll actions).countP (Edit.movesBelow task.source task.target 0 0) = 1 := by
  intro task
  have hone : task.mapping.OneToOne :=
    ((((Mapping.oneToOne_empty.insert rfl rfl).insert (by decide +kernel)
      (by decide +kernel)).insert (by decide +kernel) (by decide +kernel)).insert
      (by decide +kernel) (by decide +kernel)).insert
      (by decide +kernel) (by decide +kernel)
  have hroots : task.Paired 0 0 := ⟨by decide +kernel, Leads.refl _, Leads.refl _⟩
  have hchild : task.Paired 1 2 := hroots.child (by decide +kernel) rfl rfl
  have hmoved : task.Paired 4 4 :=
    ⟨by decide +kernel, task.source.isAncestorOrSelf_iff.1 (by decide),
      task.target.isAncestorOrSelf_iff.1 (by decide)⟩
  have hnot : ¬ task.Corresponds 4 4 := by
    rintro (⟨hroot, -⟩ | ⟨-, -, p, q, hp, hq, hpair, -⟩)
    · exact absurd hroot (by decide)
    · obtain rfl : 3 = p := Option.some.inj hp
      obtain rfl : 2 = q := Option.some.inj hq
      exact absurd hpair (by decide +kernel)
  obtain ⟨actions, hscript, hpairs, hsiblings, -⟩ := updates_and_moves_exact task hone
  obtain ⟨longest, hlongest, hcount⟩ := hsiblings 0 0 hroots
  have hlength : (Sequence.align (fun s t => task.mapping.target? s == some t)
      (task.sharedBefore 0 0) (task.sharedAfter 0 0)).length = 2 := by decide +kernel
  have hshared : (task.sharedBefore 0 0).length = 3 := by decide +kernel
  rw [hlongest.eq_length, hlength, hshared] at hcount
  refine ⟨hone, hroots, hchild, hmoved, hnot, actions, hscript, ?_,
    (hpairs 4 4 hmoved).2.2 hnot, ?_⟩
  · rw [(hpairs 1 2 hchild).1, if_neg (by decide)]
  · omega

end Task

end Script

end Reshape
