import Mathlib
import Reshape.Proofs.Script.RoundTrip
import Reshape.Proofs.Sequence.Longest

/-! # The updates and moves of a script

A pair of nodes can be changed at two times.  When its target node is visited, the label is updated
if it differs, and the node is moved if it does not stand below the place of its parent.  When the
parent is visited before that, the node may be moved among its siblings.  Up to that time, nothing
has been put between the siblings that concerns them: those of them that still belong together stand
where they stood in the source, in the same order, with their labels.  So all changes can be read
off the two trees and the mapping, and this module writes them down as a ledger. -/

namespace Reshape

/-- Putting a node somewhere does not disturb the others. -/
theorem WorkTree.Places.filter_children {work work' : WorkTree} {w p k : Nat}
    (h : work.Places work' w p k) {keep : Nat → Bool} (hw : keep w = false) (q : Nat) :
    (work'.children q).filter keep = (work.children q).filter keep := by
  have haway : ((work.children q).filter (· != w)).filter keep = (work.children q).filter keep := by
    rw [List.filter_filter]
    refine List.filter_congr fun c _ => ?_
    by_cases hc : c = w
    · simp [hc, hw]
    · simp [hc]
  rw [h.children_eq]
  by_cases hq : q = p
  · subst hq
    have hlength : (((work.children q).filter (· != w)).take k).length = k :=
      List.length_take_of_le h.fits
    have hinsert := Sequence.insertIdx_length_append (((work.children q).filter (· != w)).take k)
      (((work.children q).filter (· != w)).drop k) w
    rw [List.take_append_drop, hlength] at hinsert
    rw [if_pos rfl, hinsert, List.filter_append, List.filter_cons_of_neg (by simp [hw]),
      ← List.filter_append, List.take_append_drop, haway]
  · rw [if_neg hq, haway]

namespace Script

/-- What an edit notes about a pair of nodes. -/
inductive Change where
  | updated (s t : Nat)
  | moved (s t : Nat)
  deriving DecidableEq

/-- The change of an edit; only updates and moves have one. -/
def Change.ofEdit? : Edit → Option Change
  | .update s t => some (.updated s t)
  | .move s t _ _ => some (.moved s t)
  | .insert _ _ _ | .delete _ | .moveIn _ _ _ _ _ | .moveOut _ _ _ => none

namespace Task

variable {task : Task} {draft draft' : Draft} {progress next base : Progress}
  {visited touched pending : List Nat} {noted : List Change} {s t p q w z k : Nat} {y : Option Nat}

/-! ### The ledger -/

/-- The source node that a target node is paired with. -/
def sourceOf? (task : Task) (t : Nat) : Option Nat :=
  task.start.standIns[t]?.bind task.start.work.origin

theorem sourceOf?_eq_some (hone : task.mapping.OneToOne) :
    task.sourceOf? t = some s ↔ task.Paired s t := by
  rw [sourceOf?, Option.bind_eq_some_iff]
  constructor
  · rintro ⟨w, hw, horigin⟩
    obtain ⟨x, hpair, rfl⟩ := (start_links hone t w).1.1 hw
    rw [(start_node hpair.2.1).2.2] at horigin
    exact Option.some.inj horigin ▸ hpair
  · intro hpair
    exact ⟨_, hpair.standIn hone, (start_node hpair.2.1).2.2⟩

theorem standIns_eq_none (hone : task.mapping.OneToOne) (h : task.sourceOf? t = none) :
    task.start.standIns[t]? = none := by
  refine Option.eq_none_iff_forall_ne_some.2 fun w hw => ?_
  obtain ⟨s, hpair, -⟩ := (start_links hone t w).1.1 hw
  rw [(sourceOf?_eq_some hone).2 hpair] at h
  cases h

/-- The copy of a source node stands where the parent of a target node belongs. -/
def InPlace (task : Task) (s t : Nat) : Prop :=
  task.start.work.parent (task.number s) = task.start.place? (task.targetParent t)

instance : Decidable (task.InPlace s t) :=
  inferInstanceAs (Decidable (_ = _))

/-- The children of a source node that are paired with children of a target node. -/
def sharedBefore (task : Task) (p q : Nat) : List Nat :=
  (task.source.children p).filter fun s =>
    (task.mapping.target? s).any fun t => task.target.parent t == some q

/-- The children of a target node that are paired with children of a source node. -/
def sharedAfter (task : Task) (p q : Nat) : List Nat :=
  (task.target.children q).filter fun t =>
    (task.mapping.source? t).any fun s => task.source.parent s == some p

/-- The children of a target node that keep their places among their siblings. -/
def kept (task : Task) (p q : Nat) : List Nat :=
  (Sequence.align (fun s t => task.mapping.target? s == some t) (task.sharedBefore p q)
    (task.sharedAfter p q)).map fun (_, j) => (task.sharedAfter p q).getD j 0

/-- The children of a target node that are moved among their siblings. -/
def shifted (task : Task) (p q : Nat) : List Nat :=
  (task.sharedAfter p q).filter fun t => !(task.kept p q).contains t

/-- What is changed about the node of a pair when its target node is visited. -/
def ownChanges (task : Task) (t : Nat) : List Change :=
  match task.sourceOf? t with
  | none => []
  | some s => (if task.source.label s = task.target.label t then [] else [.updated s t]) ++
      if task.InPlace s t then [] else [.moved s t]

/-- What is changed among the children of a target node when it is visited. -/
def siblingChanges (task : Task) (t : Nat) : List Change :=
  match task.sourceOf? t with
  | none => []
  | some s => (task.shifted s t).filterMap fun d => (task.sourceOf? d).map (.moved · d)

/-- What a visit changes. -/
def changes (task : Task) (t : Nat) : List Change :=
  task.ownChanges t ++ task.siblingChanges t

theorem mem_sharedBefore : s ∈ task.sharedBefore p q ↔
    task.source.parent s = some p ∧ ∃ t, task.mapping.target? s = some t ∧
      task.target.parent t = some q := by
  simp only [sharedBefore, List.mem_filter, task.source.mem_children, Option.any_eq_true,
    beq_iff_eq]

theorem mem_sharedAfter : t ∈ task.sharedAfter p q ↔
    task.target.parent t = some q ∧ ∃ s, task.mapping.source? t = some s ∧
      task.source.parent s = some p := by
  simp only [sharedAfter, List.mem_filter, task.target.mem_children, Option.any_eq_true, beq_iff_eq]

/-- Children of a pair that the mapping pairs belong to the two subtrees. -/
theorem Paired.child (h : task.Paired p q) (hst : task.mapping.target? s = some t)
    (hs : task.source.parent s = some p) (ht : task.target.parent t = some q) : task.Paired s t :=
  ⟨hst, Leads.step hs h.2.1, Leads.step ht h.2.2⟩

/-- What is paired is not cleared away. -/
theorem Paired.not_cleared (h : task.Paired s t) (hone : task.mapping.OneToOne) :
    s ∉ task.cleared := by
  intro hmem
  have hmapped := (sourceSide_mapped hone h.2.1).2 ⟨t, h⟩
  rw [ScriptSide.unmapped_iff.1 (unmapped_of_mem_cleared hmem) s (Leads.refl s)] at hmapped
  cases hmapped

/-! ### What one edit does -/

/-- A move that was performed has put the copy below some place. -/
theorem Sound.of_apply_move (h : task.Sound draft) (hs : task.source.Within task.sourceRoot s)
    (happly : draft.apply task.target (.move s t y k) = .ok draft') :
    ∃ p work, draft' = { draft with work } ∧ draft.work.Rearranges work ∧
      draft.work.Places work (task.number s) p k ∧ task.Sound draft' := by
  cases hp : draft.place? y with
  | none =>
    simp only [Draft.apply, Draft.copy, h.copy hs, ok_bind, Draft.place, hp] at happly
    cases happly
  | some p =>
    by_cases hk : k ≤ ((draft.work.children p).filter (· != task.number s)).length
    · obtain ⟨work, hwork, hr, hplaces, hsound⟩ := h.apply_move (t := t) hs hp hk
      obtain rfl := Except.ok.inj (happly.symm.trans hwork)
      exact ⟨p, work, rfl, hr, hplaces, hsound⟩
    · simp only [Draft.apply, Draft.copy, h.copy hs, ok_bind, Draft.place, hp, Draft.attach,
        WorkTree.attach?, WorkTree.children_detach h.linked, hk, ↓reduceIte] at happly
      cases happly

/-- An insertion that was performed has put a new node below some place. -/
theorem Sound.of_apply_insert (h : task.Sound draft) (hin : task.target.Within task.targetRoot t)
    (hnone : draft.standIns[t]? = none)
    (happly : draft.apply task.target (.insert t y k) = .ok draft') :
    ∃ p work, draft' = { draft with work }.link draft.work.next t ∧
      (draft.work.push { kind := task.target.kind t, label := task.target.label t }).Rearranges
        work ∧
      draft.work.Places work draft.work.next p k ∧ task.Sound draft' := by
  cases hp : draft.place? y with
  | none =>
    simp only [Draft.apply, Draft.place, hp] at happly
    cases happly
  | some p =>
    by_cases hk : k ≤ (draft.work.children p).length
    · obtain ⟨work, hwork, hr, hplaces, hsound⟩ := h.apply_insert hin hnone hp hk
      obtain rfl := Except.ok.inj (happly.symm.trans hwork)
      exact ⟨p, work, rfl, hr, hplaces, hsound⟩
    · simp only [Draft.apply, Draft.place, hp, ok_bind, Draft.attach, WorkTree.attach?,
        WorkTree.children_push, hk, ↓reduceIte] at happly
      cases happly

/-! ### What is still as it was -/

/-- Whether a work node stands from the start on for a target node that is not touched. -/
def untouched (task : Task) (touched : List Nat) (c : Nat) : Bool :=
  (task.start.partners[c]?).any fun t => !touched.contains t

theorem untouched_iff {c : Nat} : task.untouched touched c = true ↔
    ∃ t, task.start.partners[c]? = some t ∧ t ∉ touched := by
  simp [untouched, Option.any_eq_true]

/-- A script in the making.  Pairs whose target nodes are not visited have the label of the source,
and children that are not touched stand in the order of the source; the changes so far are noted. -/
structure Tracking (task : Task) (visited touched : List Nat) (noted : List Change)
    (progress : Progress) : Prop where
  sound : task.Sound progress.draft
  label_eq : ∀ s t, task.Paired s t → t ∉ visited →
    progress.draft.work.label (task.number s) = task.source.label s
  children_eq : ∀ p, (progress.draft.work.children p).filter (task.untouched touched) =
    (task.start.work.children p).filter (task.untouched touched)
  noted_eq : progress.edits.filterMap Change.ofEdit? = noted

namespace Tracking

theorem mono (h : task.Tracking visited touched noted progress) {visited' touched' : List Nat}
    (hv : visited ⊆ visited') (ht : touched ⊆ touched') :
    task.Tracking visited' touched' noted progress where
  sound := h.sound
  label_eq s t hpair hnot := h.label_eq s t hpair fun hmem => hnot (hv hmem)
  children_eq p := by
    have hfilter : ∀ list : List Nat, list.filter (task.untouched touched') =
        (list.filter (task.untouched touched)).filter (task.untouched touched') := by
      intro list
      rw [List.filter_filter]
      refine List.filter_congr fun c _ => ?_
      rw [Bool.eq_iff_iff, Bool.and_eq_true, untouched_iff, untouched_iff]
      refine ⟨fun hc => ⟨hc, ?_⟩, And.left⟩
      obtain ⟨t, hpartner, hnot⟩ := hc
      exact ⟨t, hpartner, fun hmem => hnot (ht hmem)⟩
    rw [hfilter, h.children_eq p, ← hfilter]
  noted_eq := h.noted_eq

/-- Marks do not matter. -/
theorem marks (h : task.Tracking visited touched noted progress) (inOrder : List Nat) :
    task.Tracking visited touched noted { progress with inOrder } :=
  ⟨h.sound, h.label_eq, h.children_eq, h.noted_eq⟩

theorem not_untouched (hone : task.mapping.OneToOne) (hpair : task.Paired s t) (ht : t ∈ touched) :
    task.untouched touched (task.number s) = false := by
  rw [← Bool.not_eq_true, untouched_iff, hpair.partner hone]
  rintro ⟨x, hx, hnot⟩
  exact hnot (Option.some.inj hx ▸ ht)

/-- The node of a touched pair is moved. -/
theorem moved (h : task.Tracking visited touched noted progress) (hone : task.mapping.OneToOne)
    (hpair : task.Paired s t) (ht : t ∈ touched)
    (hemit : progress.emit task.target (.move s t y k) = .ok next) :
    task.Tracking visited touched (noted ++ [.moved s t]) next := by
  obtain ⟨draft, happly, rfl⟩ := emit_eq_ok.1 hemit
  obtain ⟨p, work, rfl, hr, hplaces, hsound⟩ := h.sound.of_apply_move hpair.2.1 happly
  refine ⟨hsound, fun x d hxd hd => ?_, fun q => ?_, ?_⟩
  · rw [← h.label_eq x d hxd hd]
    exact hr.label_eq _
  · rw [← h.children_eq q]
    exact hplaces.filter_children (not_untouched hone hpair ht) q
  · rw [Progress.edits_note, List.filterMap_append, h.noted_eq]
    rfl

/-- The node of a visited pair is updated. -/
theorem updated (h : task.Tracking visited touched noted progress) (hpair : task.Paired s t)
    (ht : t ∈ visited)
    (hemit : progress.emit task.target (.update s t) = .ok next) :
    task.Tracking visited touched (noted ++ [.updated s t]) next := by
  obtain ⟨draft, happly, rfl⟩ := emit_eq_ok.1 hemit
  rw [h.sound.apply_update hpair.2.1] at happly
  obtain rfl := Except.ok.inj happly
  refine ⟨h.sound.setLabel _ _, fun x d hxd hd => ?_, fun q => ?_, ?_⟩
  · have hne : task.number x ≠ task.number s := by
      intro heq
      obtain rfl := number_inj hxd.2.1 heq
      exact hd (Option.some.inj (hpair.1.symm.trans hxd.1) ▸ ht)
    rw [Progress.draft_note, WorkTree.label_setLabel (h.sound.number_lt hpair.2.1), if_neg hne]
    exact h.label_eq x d hxd hd
  · rw [Progress.draft_note, WorkTree.children_setLabel]
    exact h.children_eq q
  · rw [Progress.edits_note, List.filterMap_append, h.noted_eq]
    rfl

/-- A node is inserted; it stands for nothing from the start on. -/
theorem inserted (h : task.Tracking visited touched noted progress) (hone : task.mapping.OneToOne)
    (hin : task.target.Within task.targetRoot t) (hnone : progress.draft.standIns[t]? = none)
    (hemit : progress.emit task.target (.insert t y k) = .ok next) :
    task.Tracking visited touched noted next := by
  obtain ⟨draft, happly, rfl⟩ := emit_eq_ok.1 hemit
  obtain ⟨p, work, rfl, hr, hplaces, hsound⟩ := h.sound.of_apply_insert hin hnone happly
  refine ⟨hsound, fun x d hxd hd => ?_, fun q => ?_, ?_⟩
  · rw [← h.label_eq x d hxd hd]
    show work.label _ = _
    rw [hr.label_eq, WorkTree.label, WorkTree.node_push,
      if_neg (Nat.ne_of_lt (h.sound.number_lt hxd.2.1))]
    rfl
  · have hnew : task.untouched touched progress.draft.work.next = false := by
      rw [← Bool.not_eq_true, untouched_iff]
      rintro ⟨x, hx, -⟩
      obtain ⟨s, hpair, heq⟩ := (start_links hone x _).2.1 hx
      exact absurd (h.sound.number_lt hpair.2.1) (by rw [heq]; exact Nat.lt_irrefl _)
    rw [← h.children_eq q]
    exact hplaces.filter_children hnew q
  · rw [Progress.edits_note, List.filterMap_append, h.noted_eq]
    exact List.append_nil _

/-! ### The visit to a node -/

/-- The node of a pair takes the label of its target node. -/
theorem relabel (h : task.Tracking visited touched noted progress) (hpair : task.Paired s t)
    (hnew : t ∉ visited) (hnext : task.relabel progress t (task.number s) = .ok next) :
    task.Tracking (t :: visited) touched
      (noted ++ if task.source.label s = task.target.label t then [] else [.updated s t]) next ∧
      (∀ c, next.draft.work.parent c = progress.draft.work.parent c) ∧
      next.draft.standIns = progress.draft.standIns := by
  rw [relabel_eq_emit (h.sound.copy_node s hpair.2.1).2 (h.sound.copy hpair.2.1),
    h.label_eq s t hpair hnew] at hnext
  have hmono := h.mono (List.subset_cons_self t visited) (List.Subset.refl touched)
  by_cases hsame : task.source.label s = task.target.label t
  · rw [if_pos (beq_iff_eq.2 hsame)] at hnext
    obtain rfl := Except.ok.inj hnext
    rw [if_pos hsame, List.append_nil]
    exact ⟨hmono, fun _ => rfl, rfl⟩
  · rw [if_neg fun heq => hsame (beq_iff_eq.1 heq)] at hnext
    rw [if_neg hsame]
    refine ⟨hmono.updated hpair (List.mem_cons_self ..) hnext, ?_⟩
    obtain ⟨draft, happly, rfl⟩ := emit_eq_ok.1 hnext
    rw [h.sound.apply_update hpair.2.1] at happly
    obtain rfl := Except.ok.inj happly
    exact ⟨fun c => WorkTree.parent_setLabel _ _ _ _, rfl⟩

/-- The node of a pair takes the parent of its target node. -/
theorem reparent (h : task.Tracking visited touched noted progress) (hone : task.mapping.OneToOne)
    (hpair : task.Paired s t) (hz : progress.draft.place? (task.targetParent t) = some z)
    (hnext : task.reparent progress t (task.number s) z = .ok next) :
    task.Tracking visited (t :: touched) (noted ++
      if progress.draft.work.parent (task.number s) = some z then [] else [.moved s t]) next := by
  have hmono := h.mono (List.Subset.refl visited) (List.subset_cons_self t touched)
  by_cases hup : progress.draft.work.parent (task.number s) = some z
  · rw [Task.reparent, if_pos (beq_iff_eq.2 hup)] at hnext
    obtain rfl := Except.ok.inj hnext
    rw [if_pos hup, List.append_nil]
    exact hmono
  · rw [reparent_eq_ok (h.sound.copy_node s hpair.2.1).2 (h.sound.copy hpair.2.1) hz hup] at hnext
    rw [if_neg hup]
    exact hmono.moved hone hpair (List.mem_cons_self ..) hnext

theorem adjust (h : task.Tracking visited touched noted progress) (hone : task.mapping.OneToOne)
    (hpair : task.Paired s t) (hnew : t ∉ visited)
    (hz : progress.draft.place? (task.targetParent t) = some z)
    (hnext : (task.relabel progress t (task.number s) >>= fun middle =>
      task.reparent middle t (task.number s) z) = .ok next) :
    task.Tracking (t :: visited) (t :: touched)
      (noted ++
        ((if task.source.label s = task.target.label t then [] else [.updated s t]) ++
          if progress.draft.work.parent (task.number s) = some z then [] else [.moved s t]))
      next := by
  obtain ⟨middle, hmiddle, hnext⟩ := bind_eq_ok.1 hnext
  obtain ⟨hrelabelled, hparent, hstand⟩ := h.relabel hpair hnew hmiddle
  rw [← List.append_assoc, ← hparent]
  exact hrelabelled.reparent hone hpair ((place?_congr hstand _).trans hz) hnext

end Tracking

/-- Until its target node is visited, the node of a pair stands below its parent in the source. -/
theorem Visiting.parent_eq (h : task.Visiting base visited pending progress)
    (hone : task.mapping.OneToOne) (hclear : task.Cleared base) (hpair : task.Paired s t)
    (hnew : t ∉ visited) :
    progress.draft.work.parent (task.number s) = task.start.work.parent (task.number s) := by
  have hstand := h.sound.keeps t _ (hpair.standIn hone)
  have hunmoved := h.unmoved (task.number s) fun v hv heq =>
    hnew (h.sound.standIn_inj heq hstand ▸ hv)
  rw [hunmoved, hclear.prunes.parent_eq, if_neg]
  intro hgone
  obtain ⟨x, hx, heq⟩ := List.mem_map.1 hgone
  obtain rfl := number_inj (within_of_mem_cleared hx) heq
  exact hpair.not_cleared hone hx

/-- A copy has a place that is part of the first draft. -/
theorem exists_start_parent (hs : task.source.Within task.sourceRoot s) :
    ∃ p, task.start.work.parent (task.number s) = some p ∧ p < task.start.work.next := by
  rw [start_parent hs]
  by_cases hroot : s = task.sourceRoot
  · exact ⟨WorkTree.top, if_pos hroot, by rw [start_next, WorkTree.top]; omega⟩
  · rcases hs.eq_or_step with heq | ⟨p, hp, hwithin⟩
    · exact absurd heq hroot
    · exact ⟨task.number p, by rw [if_neg hroot, hp]; rfl, number_lt_next hwithin⟩

/-- A copy stands below the place of a target node exactly if it does so in the first draft. -/
theorem Sound.start_parent_eq_iff (h : task.Sound draft) (hs : task.source.Within task.sourceRoot s)
    (hz : draft.place? y = some z) :
    task.start.work.parent (task.number s) = some z ↔
      task.start.work.parent (task.number s) = task.start.place? y := by
  cases y with
  | none => rw [← hz]; rfl
  | some v =>
    show _ ↔ _ = task.start.standIns[v]?
    have hv : draft.standIns[v]? = some z := hz
    cases hstart : task.start.standIns[v]? with
    | some w => rw [Option.some.inj (hv.symm.trans (h.keeps v w hstart))]
    | none =>
      -- What stands for `v` is new, and the place of the copy is not.
      obtain ⟨p, hp, hlt⟩ := exists_start_parent hs
      have hnew := (h.new_node v z hv hstart).1
      rw [hp]
      constructor
      · intro heq
        obtain rfl := Option.some.inj heq
        exact absurd hlt (Nat.not_lt.2 hnew)
      · exact fun heq => nomatch heq

/-- Something stands for a node that is visited, with its label and below the place of its
parent. -/
theorem Tracking.bring (h : task.Tracking visited touched noted progress)
    (hone : task.mapping.OneToOne) (hvis : task.Visiting base visited pending progress)
    (hclear : task.Cleared base) (hin : task.target.Within task.targetRoot t) (hnew : t ∉ visited)
    (hz : progress.draft.place? (task.targetParent t) = some z)
    (hnext : task.bring progress t z = .ok next) :
    task.Tracking (t :: visited) (t :: touched) (noted ++ task.ownChanges t) next := by
  have hfresh := hvis.fresh t hnew
  unfold Task.bring at hnext
  unfold ownChanges
  cases hsource : task.sourceOf? t with
  | some s =>
    have hpair := (sourceOf?_eq_some hone).1 hsource
    rw [hfresh, hpair.standIn hone] at hnext
    have hadjust := h.adjust hone hpair hnew hz hnext
    rw [hvis.parent_eq hone hclear hpair hnew] at hadjust
    have hplace : task.start.work.parent (task.number s) = some z ↔ task.InPlace s t :=
      h.sound.start_parent_eq_iff hpair.2.1 hz
    simp only [hplace] at hadjust
    exact hadjust
  | none =>
    have hnone := hfresh.trans (standIns_eq_none hone hsource)
    rw [hnone] at hnext
    replace hnext := (create_eq_ok hz).1 hnext
    rw [List.append_nil]
    exact (h.mono (List.subset_cons_self t visited) (List.subset_cons_self t touched)).inserted
      hone hin hnone hnext

/-! ### The alignment of children -/

theorem start_parent_eq_number_iff (hs : task.source.Within task.sourceRoot s)
    (hp : task.source.Within task.sourceRoot p) :
    task.start.work.parent (task.number s) = some (task.number p) ↔
      task.source.parent s = some p := by
  rw [start_parent hs]
  by_cases hroot : s = task.sourceRoot
  · rw [if_pos hroot, Option.some.injEq]
    constructor
    · exact fun heq => absurd heq.symm (task.number_ne_top p)
    · exact fun hparent => absurd hroot (task.source.ne_root_of_parent hp hparent)
  · rw [if_neg hroot, Option.map_eq_some_iff]
    constructor
    · rintro ⟨x, hx, heq⟩
      rw [hx, number_inj hp heq.symm]
    · exact fun hparent => ⟨p, hparent, rfl⟩

/-- The children of a pair that still stand below it are those that are paired with each other. -/
theorem Visiting.settledChildren_eq (h : task.Visiting base visited pending progress)
    (hone : task.mapping.OneToOne) (hclear : task.Cleared base) (hpair : task.Paired p t)
    (hlater : ∀ d ∈ task.target.children t, d ∉ visited) :
    task.settledChildren progress.draft (task.number p) t = task.sharedAfter p t := by
  refine List.filter_congr fun d hd => ?_
  have hparent := task.target.mem_children.1 hd
  rw [Bool.eq_iff_iff, Option.any_eq_true, Option.any_eq_true, h.fresh d (hlater d hd)]
  simp only [beq_iff_eq]
  constructor
  · rintro ⟨w, hw, hup⟩
    obtain ⟨s, hsd, rfl⟩ := (start_links hone d w).1.1 hw
    rw [h.parent_eq hone hclear hsd (hlater d hd),
      start_parent_eq_number_iff hsd.2.1 hpair.2.1] at hup
    exact ⟨s, (hone s d).1 hsd.1, hup⟩
  · rintro ⟨s, hs, hup⟩
    have hsd := hpair.child ((hone s d).2 hs) hup hparent
    refine ⟨_, hsd.standIn hone, ?_⟩
    rw [h.parent_eq hone hclear hsd (hlater d hd)]
    exact (start_parent_eq_number_iff hsd.2.1 hpair.2.1).2 hup

/-- Below a new node nothing of the source stands. -/
theorem Visiting.settledChildren_eq_nil (h : task.Visiting base visited pending progress)
    (hone : task.mapping.OneToOne) (hclear : task.Cleared base)
    (hw : progress.draft.standIns[t]? = some w) (hnone : task.sourceOf? t = none)
    (hlater : ∀ d ∈ task.target.children t, d ∉ visited) :
    task.settledChildren progress.draft w t = [] := by
  refine List.eq_nil_iff_forall_not_mem.2 fun d hd => ?_
  obtain ⟨hparent, u, hu, hup⟩ := mem_settledChildren.1 hd
  have hd := hlater d (task.target.mem_children.2 hparent)
  rw [h.fresh d hd] at hu
  obtain ⟨s, hsd, rfl⟩ := (start_links hone d u).1.1 hu
  obtain ⟨x, hx, hlt⟩ := exists_start_parent hsd.2.1
  rw [h.parent_eq hone hclear hsd hd, hx] at hup
  obtain rfl := Option.some.inj hup
  have hnew := (h.sound.new_node t x hw (standIns_eq_none hone hnone)).1
  exact absurd hlt (Nat.not_lt.2 hnew)

/-- What stands for a child of a target node is the copy that is paired with it, as long as the
child is not visited. -/
theorem Visiting.stands_below_iff (h : task.Visiting base visited pending progress)
    (hone : task.mapping.OneToOne) (hin : task.target.Within task.targetRoot t)
    (hlater : ∀ d ∈ task.target.children t, d ∉ visited) (c : Nat) :
    ((progress.draft.partners[c]?).any fun d => task.targetParent d == some t) = true ↔
      ∃ s d, task.Paired s d ∧ c = task.number s ∧ task.target.parent d = some t := by
  simp only [Option.any_eq_true, beq_iff_eq]
  constructor
  · rintro ⟨d, hd, hparent⟩
    unfold targetParent at hparent
    split at hparent
    · cases hparent
    · have hstand := (h.sound.link_iff d c).2 hd
      rw [h.fresh d (hlater d (task.target.mem_children.2 hparent))] at hstand
      obtain ⟨s, hsd, rfl⟩ := (start_links hone d c).1.1 hstand
      exact ⟨s, d, hsd, rfl, hparent⟩
  · rintro ⟨s, d, hsd, rfl, hparent⟩
    refine ⟨d, (h.sound.link_iff d _).1 (h.sound.keeps d _ (hsd.standIn hone)), ?_⟩
    rw [targetParent, if_neg (task.target.ne_root_of_parent hin hparent), hparent]

/-- The copies of the children of a pair that are paired with each other stand in the order of the
source, if none of them has been touched. -/
theorem Tracking.placedChildren_eq (h : task.Tracking visited touched noted progress)
    (hone : task.mapping.OneToOne) (hvis : task.Visiting base visited pending progress)
    (hpair : task.Paired p t) (hlater : ∀ d ∈ task.target.children t, d ∉ visited)
    (hfresh : ∀ d ∈ task.target.children t, d ∉ touched) :
    task.placedChildren progress.draft (task.number p) t =
      (task.sharedBefore p t).map task.number := by
  have hbelow := hvis.stands_below_iff hone hpair.2.2 hlater
  -- What belongs below `t` is untouched, so it stands as in the first draft.
  have hrestrict : ∀ list : List Nat,
      (list.filter fun c => (progress.draft.partners[c]?).any fun d =>
        task.targetParent d == some t) =
      (list.filter (task.untouched touched)).filter fun c =>
        (progress.draft.partners[c]?).any fun d => task.targetParent d == some t := by
    intro list
    rw [List.filter_filter]
    refine List.filter_congr fun c _ => ?_
    rw [Bool.eq_iff_iff, Bool.and_eq_true, hbelow]
    refine ⟨fun hc => ⟨hc, ?_⟩, And.left⟩
    obtain ⟨s, d, hsd, rfl, hparent⟩ := hc
    exact untouched_iff.2 ⟨d, hsd.partner hone, hfresh d (task.target.mem_children.2 hparent)⟩
  rw [placedChildren, hrestrict, h.children_eq, ← hrestrict, start_children hpair.2.1,
    List.filter_map]
  congr 1
  refine List.filter_congr fun s hs => ?_
  have hs := task.source.mem_children.1 hs
  rw [Bool.eq_iff_iff, Function.comp_apply, hbelow, Option.any_eq_true]
  simp only [beq_iff_eq]
  constructor
  · rintro ⟨x, d, hxd, heq, hparent⟩
    obtain rfl := number_inj hxd.2.1 heq.symm
    exact ⟨d, hxd.1, hparent⟩
  · rintro ⟨d, hd, hparent⟩
    exact ⟨s, d, hpair.child hd hs hparent, rfl, hparent⟩

/-- The children that keep their places are read off the two orders of siblings. -/
theorem Tracking.stays_eq (h : task.Tracking visited touched noted progress)
    (hone : task.mapping.OneToOne) (hvis : task.Visiting base visited pending progress)
    (hclear : task.Cleared base) (hpair : task.Paired p t)
    (hlater : ∀ d ∈ task.target.children t, d ∉ visited)
    (hfresh : ∀ d ∈ task.target.children t, d ∉ touched) :
    task.stays progress.draft (task.number p) t = task.kept p t := by
  have hrelated : ∀ s ∈ task.sharedBefore p t, ∀ d ∈ task.sharedAfter p t,
      (progress.draft.partners[task.number s]? == some d) =
        (task.mapping.target? s == some d) := by
    intro s hs d hd
    have hs := (mem_sharedBefore.1 hs).1
    have hd := (mem_sharedAfter.1 hd).1
    rw [Bool.eq_iff_iff, beq_iff_eq, beq_iff_eq]
    constructor
    · exact fun heq => (h.sound.paired hone (Leads.step hs hpair.2.1) heq).1
    · intro heq
      have hsd := hpair.child heq hs hd
      exact (h.sound.link_iff d _).1 (h.sound.keeps d _ (hsd.standIn hone))
  unfold stays kept
  rw [hvis.settledChildren_eq hone hclear hpair hlater,
    h.placedChildren_eq hone hvis hpair hlater hfresh, Sequence.align_map hrelated]

/-- Children that belong together are moved one after the other. -/
theorem Tracking.moveChildren (h : task.Tracking visited touched noted progress)
    (hone : task.mapping.OneToOne) (hw : progress.draft.standIns[t]? = some w) {list : List Nat}
    (hlist : ∀ d ∈ list, d ∈ touched ∧ ∃ s, task.Paired s d)
    (hnext : list.foldlM (task.moveChild t w) progress = .ok next) :
    task.Tracking visited touched
      (noted ++ list.filterMap fun d => (task.sourceOf? d).map (.moved · d)) next := by
  induction list generalizing progress noted with
  | nil =>
    obtain rfl := Except.ok.inj hnext
    rw [List.filterMap_nil, List.append_nil]
    exact h
  | cons d list ih =>
    rw [List.foldlM_cons] at hnext
    obtain ⟨after, hafter, hnext⟩ := bind_eq_ok.1 hnext
    obtain ⟨htouched, s, hpair⟩ := hlist d (List.mem_cons_self ..)
    have hstand := h.sound.keeps d _ (hpair.standIn hone)
    obtain ⟨moved, hemit, rfl⟩ := (moveChild_eq_ok hstand (h.sound.copy_node s hpair.2.1).2
      (h.sound.copy hpair.2.1) hw).1 hafter
    have hmoved := (h.moved hone hpair htouched hemit).marks (d :: moved.inOrder)
    have hw' : (moved.mark d).draft.standIns[t]? = some w := by
      obtain ⟨draft, happly, rfl⟩ := emit_eq_ok.1 hemit
      obtain ⟨p, work, rfl, -⟩ := h.sound.of_apply_move hpair.2.1 happly
      exact hw
    have hrest := ih hmoved hw' (fun x hx => hlist x (List.mem_cons_of_mem _ hx)) hnext
    rw [List.append_assoc] at hrest
    rw [List.filterMap_cons_some (b := .moved s d)
      (by rw [(sourceOf?_eq_some hone).2 hpair]; rfl)]
    exact hrest

/-- **The alignment moves what the ledger says.** -/
theorem Tracking.alignChildren (h : task.Tracking visited touched noted progress)
    (hone : task.mapping.OneToOne) (hvis : task.Visiting base visited pending progress)
    (hclear : task.Cleared base) (hw : progress.draft.standIns[t]? = some w)
    (hlater : ∀ d ∈ task.target.children t, d ∉ visited)
    (hfresh : ∀ d ∈ task.target.children t, d ∉ touched)
    (hnext : task.alignChildren progress w t = .ok next) :
    task.Tracking visited (task.target.children t ++ touched) (noted ++ task.siblingChanges t)
      next := by
  have hloop : ((task.settledChildren progress.draft w t).filter fun d =>
      !(task.stays progress.draft w t).contains d).foldlM (task.moveChild t w)
        ((task.stays progress.draft w t).foldl Progress.mark
          (progress.unmark (task.target.children t))) = .ok next := hnext
  have hmono := h.mono (List.Subset.refl visited)
    (List.subset_append_right (task.target.children t) touched)
  rw [foldl_mark] at hloop
  unfold siblingChanges
  cases hsource : task.sourceOf? t with
  | none =>
    rw [hvis.settledChildren_eq_nil hone hclear hw hsource hlater] at hloop
    obtain rfl := Except.ok.inj hloop
    rw [List.append_nil]
    exact hmono.marks _
  | some p =>
    have hpair := (sourceOf?_eq_some hone).1 hsource
    obtain rfl := Option.some.inj (hw.symm.trans (h.sound.keeps t _ (hpair.standIn hone)))
    rw [h.stays_eq hone hvis hclear hpair hlater hfresh,
      hvis.settledChildren_eq hone hclear hpair hlater] at hloop
    have hmarked := hmono.marks ((task.kept p t).reverse ++
      (progress.unmark (task.target.children t)).inOrder)
    refine hmarked.moveChildren hone hw (fun d hd => ?_) hloop
    obtain ⟨hparent, s, hs, hup⟩ := mem_sharedAfter.1 (List.mem_filter.1 hd).1
    exact ⟨List.mem_append_left _ (task.target.mem_children.2 hparent), s,
      hpair.child ((hone s d).2 hs) hup hparent⟩

/-- **One visit changes what the ledger says.** -/
theorem Tracking.visit (h : task.Tracking visited touched noted progress)
    (hone : task.mapping.OneToOne) (hvis : task.Visiting base visited [] progress)
    (hclear : task.Cleared base) (hin : task.target.Within task.targetRoot t) (hnew : t ∉ visited)
    (hlater : ∀ d ∈ task.target.children t, d ∉ visited)
    (hparent : ∀ v, task.targetParent t = some v → v ∈ visited)
    (hfresh : ∀ d ∈ task.target.children t, d ∉ touched)
    (hnext : task.visit progress t = .ok next) :
    task.Tracking (visited ++ [t]) (task.target.children t ++ t :: touched)
      (noted ++ task.changes t) next := by
  have hself : t ∉ task.target.children t :=
    fun hmem => Nat.lt_irrefl t (task.target.lt_of_mem_children hmem)
  cases hz : progress.draft.place? (task.targetParent t) with
  | none =>
    simp only [Task.visit, hz] at hnext
    cases hnext
  | some z =>
    obtain ⟨w, placed, hbring, hput, hlabel, hentries⟩ := hvis.exists_put hone hin hnew hz hparent
    have hw : placed.draft.standIns[t]? = some w := by rw [hput.links, if_pos rfl]
    rw [visit_eq hz hbring hw] at hnext
    have hbrought := h.bring hone hvis hclear hin hnew hz hbring
    have hvisited : t :: visited ⊆ visited ++ [t] := by simp
    have hmono := hbrought.mono hvisited (List.Subset.refl _)
    have haligned := (hmono.marks (t :: placed.inOrder)).alignChildren hone
      (hvis.put hnew hput hlabel hentries) hclear hw ?_ ?_ hnext
    · rwa [List.append_assoc] at haligned
    · intro d hd hmem
      rcases List.mem_append.1 hmem with hmem | hmem
      · exact hlater d hd hmem
      · exact hself (List.mem_singleton.1 hmem ▸ hd)
    · intro d hd hmem
      rcases List.mem_cons.1 hmem with rfl | hmem
      · exact hself hd
      · exact hfresh d hd hmem

/-! ### The whole script -/

/-- The target nodes whose stand-ins may have been moved when some nodes have been visited. -/
def touchedBy (task : Task) (visited : List Nat) : List Nat :=
  visited ++ visited.flatMap task.target.children

theorem Cleared.tracking (h : task.Cleared base) (hone : task.mapping.OneToOne)
    (hnoted : base.edits.filterMap Change.ofEdit? = []) : task.Tracking [] [] [] base where
  sound := h.sound
  label_eq s t hpair _ := by
    rw [h.prunes.label_eq]
    exact (start_node hpair.2.1).2.1
  children_eq p := by
    rw [h.prunes.children_eq, List.filter_filter]
    refine List.filter_congr fun c _ => ?_
    rw [Bool.and_eq_left_iff_imp, decide_eq_true_iff]
    -- What was cleared away is not paired.
    intro hc hgone
    obtain ⟨t, ht, -⟩ := untouched_iff.1 hc
    obtain ⟨x, hx, rfl⟩ := List.mem_map.1 hgone
    obtain ⟨s, hpair, heq⟩ := (start_links hone t _).2.1 ht
    obtain rfl := number_inj (within_of_mem_cleared hx) heq
    exact hpair.not_cleared hone hx
  noted_eq := hnoted

/-- The second phase changes what the ledger says. -/
theorem exists_tracking (hone : task.mapping.OneToOne) (h : task.Cleared base)
    (hnoted : base.edits.filterMap Change.ofEdit? = []) :
    ∃ progress, task.visits.foldlM task.visit base = .ok progress ∧
      progress.edits.filterMap Change.ofEdit? = task.visits.flatMap task.changes := by
  suffices hloop : ∃ progress, task.visits.foldlM task.visit base = .ok progress ∧
      task.Visiting base task.visits [] progress ∧
      task.Tracking task.visits (task.touchedBy task.visits) (task.visits.flatMap task.changes)
        progress by
    obtain ⟨progress, hprogress, -, htrack⟩ := hloop
    exact ⟨progress, hprogress, htrack.noted_eq⟩
  refine foldlM_ok (fun seen progress => task.Visiting base seen [] progress ∧
    task.Tracking seen (task.touchedBy seen) (seen.flatMap task.changes) progress)
    ⟨Visiting.start h, h.tracking hone hnoted⟩ ?_
  rintro seen t rest progress hlist ⟨hvis, htrack⟩
  obtain ⟨hin, hnew, hlater, hparent⟩ := visits_split hlist
  obtain ⟨next, hnext, hvis'⟩ := hvis.visit hone hin hnew hlater hparent
  have hfresh : ∀ d ∈ task.target.children t, d ∉ task.touchedBy seen := by
    intro d hd hmem
    rcases List.mem_append.1 hmem with hmem | hmem
    · exact hlater d hd hmem
    · obtain ⟨v, hv, hdv⟩ := List.mem_flatMap.1 hmem
      have hsame : v = t := Option.some.inj
        ((task.target.mem_children.1 hdv).symm.trans (task.target.mem_children.1 hd))
      exact hnew (hsame ▸ hv)
  refine ⟨next, hnext, hvis', ?_⟩
  rw [List.flatMap_append, List.flatMap_singleton]
  refine (htrack.visit hone hvis h hin hnew hlater hparent hfresh hnext).mono
    (List.Subset.refl _) fun d hd => ?_
  simp only [touchedBy, List.mem_append, List.mem_cons, List.mem_flatMap] at hd ⊢
  rcases hd with hd | rfl | hd | ⟨v, hv, hd⟩
  · exact Or.inr ⟨t, Or.inr (Or.inl rfl), hd⟩
  · exact Or.inl (Or.inr (Or.inl rfl))
  · exact Or.inl (Or.inl hd)
  · exact Or.inr ⟨v, Or.inl hv, hd⟩

theorem deleteLeftOver_noted (hnext : deleteLeftOver progress w = .ok next) :
    next.edits.filterMap Change.ofEdit? = progress.edits.filterMap Change.ofEdit? := by
  unfold deleteLeftOver at hnext
  split at hnext
  · obtain rfl := Except.ok.inj hnext
    rfl
  · obtain ⟨s, -, hnext⟩ := bind_eq_ok.1 hnext
    split at hnext
    · rw [← Except.ok.inj hnext, Progress.edits_note, List.filterMap_append]
      exact List.append_nil _
    · cases hnext

theorem arrive_noted {report : Report} (hnext : task.arrive progress report = .ok next) :
    next.edits.filterMap Change.ofEdit? = progress.edits.filterMap Change.ofEdit? := by
  unfold arrive at hnext
  dsimp only at hnext
  split at hnext
  · cases hnext
  · split at hnext
    · cases hnext
    · rw [← Except.ok.inj hnext, Progress.edits_note, List.filterMap_append]
      exact List.append_nil _

/-- **The ledger of a script.**  Its updates and moves are those of the visits, in their order. -/
theorem noted_of_edits (hone : task.mapping.OneToOne) {edits : List Edit}
    (hedits : task.edits = .ok edits) :
    edits.filterMap Change.ofEdit? = task.visits.flatMap task.changes := by
  obtain ⟨hcleared, hcedits⟩ := cleared_clear hone
  have hnoted : task.clear.edits.filterMap Change.ofEdit? = [] := by
    rw [hcedits, List.filterMap_append, List.filterMap_map, List.filterMap_map,
      List.append_eq_nil_iff]
    exact ⟨List.filterMap_eq_nil_iff.2 fun _ _ => rfl, List.filterMap_eq_nil_iff.2 fun _ _ => rfl⟩
  obtain ⟨visited, hvisit, hledger⟩ := exists_tracking hone hcleared hnoted
  unfold visits at hvisit
  rw [Task.edits, hvisit, ok_bind] at hedits
  obtain ⟨reduced, hreduce, hedits⟩ := bind_eq_ok.1 hedits
  obtain ⟨complete, hcomplete, hedits⟩ := bind_eq_ok.1 hedits
  obtain rfl := Except.ok.inj hedits
  -- The last two phases neither update nor move.
  have hreduced := foldlM_keeps
    (fun state => state.edits.filterMap Change.ofEdit? = task.visits.flatMap task.changes) hledger
    (fun _ _ _ _ h hstep => (deleteLeftOver_noted hstep).trans h) hreduce
  exact foldlM_keeps
    (fun state => state.edits.filterMap Change.ofEdit? = task.visits.flatMap task.changes) hreduced
    (fun _ _ _ _ h hstep => (arrive_noted hstep).trans h) hcomplete

end Task

end Script

end Reshape
