import Mathlib
import Reshape.Proofs.Matching.Identity
import Reshape.Proofs.Script.RoundTrip

/-! # The script of equal subtrees

A script is empty exactly if there is nothing to do.  If two equal subtrees are mapped along their
preorders, every phase leaves the first draft as it is: no node is bare, every target node is stood
for by a copy with its label under the right parent, siblings stand in order, and nothing is left
over.  Conversely an empty script leads to the first draft, so the copy of the source agrees with
the target. -/

namespace Reshape

theorem ScriptSide.transferred_eq_nil {side : ScriptSide} (h : side.reports = []) :
    side.reported = [] ∧ side.transferred = [] := by
  have hreported : side.reported = [] := by simp [reported, transfers, report?, h]
  exact ⟨hreported, by rw [transferred, hreported, List.mergeSort_nil]⟩

namespace Script.Task

variable {task : Task} {progress : Progress} {s t w z : Nat}

/-- A task without reports whose subtrees are equal and mapped along their preorders. -/
structure Settled (task : Task) : Prop where
  alike : task.source.Alike task.target task.sourceRoot task.targetRoot
  twins : task.mapping.Twins task.source task.target task.sourceRoot task.targetRoot
  movedOut : task.movedOut = []
  movedIn : task.movedIn = []

namespace Settled

variable (h : task.Settled)

include h

/-! ### Pairs along the preorders -/

theorem paired_iff : task.Paired s t ↔
    (s, t) ∈ Mapping.subtreePairs task.source task.target task.sourceRoot task.targetRoot := by
  rw [Paired, h.twins.target?_iff]
  exact ⟨And.left, fun hp => ⟨hp, Mapping.mem_subtreePairs hp⟩⟩

theorem exists_target (hs : task.source.Within task.sourceRoot s) : ∃ t, task.Paired s t := by
  obtain ⟨t, ht⟩ := Option.isSome_iff_exists.1 (h.twins.hasSource h.alike hs)
  exact ⟨t, h.paired_iff.2 ((h.twins.target?_iff s t).1 ht)⟩

theorem exists_source (ht : task.target.Within task.targetRoot t) : ∃ s, task.Paired s t := by
  obtain ⟨s, hs⟩ := Option.isSome_iff_exists.1 (h.twins.hasTarget h.alike ht)
  exact ⟨s, h.paired_iff.2 ((h.twins.target?_iff s t).1 ((h.twins.oneToOne s t).2 hs))⟩

theorem alike_of_paired (hp : task.Paired s t) : task.source.Alike task.target s t :=
  h.alike.of_mem_subtreePairs (h.paired_iff.1 hp)

/-- The children of a pair are paired in order. -/
theorem paired_children (hp : task.Paired s t) :
    List.Forall₂ task.Paired (task.source.children s) (task.target.children t) :=
  List.forall₂_iff_zip.2 ⟨(h.alike_of_paired hp).children.length_eq, fun hq =>
    h.paired_iff.2 (h.alike.child_mem_subtreePairs (h.paired_iff.1 hp) hq)⟩

/-- A pair is the pair of the roots, or its parents are a pair. -/
theorem paired_parents (hp : task.Paired s t) : s = task.sourceRoot ∧ t = task.targetRoot ∨
    ∃ p q, task.source.parent s = some p ∧ task.target.parent t = some q ∧ task.Paired p q := by
  rcases hp.2.1.eq_or_step with rfl | ⟨p, hparent, hwithin⟩
  · left
    have hroots := (h.twins.target?_iff _ _).2 h.alike.mem_subtreePairs_self
    exact ⟨rfl, Option.some.inj (hp.1.symm.trans hroots)⟩
  · right
    obtain ⟨q, hq⟩ := h.exists_target hwithin
    have hchildren := h.paired_children hq
    obtain ⟨d, hd⟩ := exists_mem_zip_of_left hchildren.length_eq
      (task.source.mem_children.2 hparent)
    obtain rfl : d = t :=
      Option.some.inj (((List.forall₂_iff_zip.1 hchildren).2 hd).1.symm.trans hp.1)
    exact ⟨p, q, hparent, task.target.mem_children.1 (List.of_mem_zip hd).2, hq⟩

/-- What stands for a target node stands where its parent does. -/
theorem place_eq (hp : task.Paired s t) :
    task.start.place? (task.targetParent t) = task.start.work.parent (task.number s) := by
  rw [start_parent hp.2.1, targetParent]
  rcases h.paired_parents hp with ⟨rfl, rfl⟩ | ⟨p, q, hparent, hparent', hpq⟩
  · rw [if_pos rfl, if_pos rfl]
    rfl
  · have hs : s ≠ task.sourceRoot := task.source.ne_root_of_parent hpq.2.1 hparent
    have ht : t ≠ task.targetRoot := task.target.ne_root_of_parent hpq.2.2 hparent'
    rw [if_neg hs, if_neg ht, hparent, hparent']
    exact hpq.standIn h.twins.oneToOne

/-! ### Phases that do nothing -/

theorem clear_eq_start : task.clear = { draft := task.start } := by
  have hbare : task.bare = [] := by
    refine List.filter_eq_nil_iff.2 fun s hs hbare => ?_
    have hwithin := task.source.mem_postorder.1 hs
    have hmapped := (sourceSide_mapped h.twins.oneToOne hwithin).2 (h.exists_target hwithin)
    rw [Bool.and_eq_true, ScriptSide.unmapped_iff] at hbare
    rw [hbare.1 s (Leads.refl s)] at hmapped
    cases hmapped
  obtain ⟨hreported, htransferred⟩ :
      task.sourceSide.reported = [] ∧ task.sourceSide.transferred = [] :=
    ScriptSide.transferred_eq_nil h.movedOut
  have hdeparted : task.departed task.sourceSide = { draft := task.start } := by
    rw [departed, hreported, htransferred]
    rfl
  show task.bare.foldl discard (task.departed task.sourceSide) = _
  rw [hbare, hdeparted]
  rfl

theorem placedChildren_eq (hp : task.Paired s t) :
    task.placedChildren task.start (task.number s) t =
      (task.source.children s).map task.number := by
  rw [placedChildren, start_children hp.2.1]
  refine List.filter_eq_self.2 fun c hc => ?_
  obtain ⟨x, hx, rfl⟩ := List.mem_map.1 hc
  have hchildren := h.paired_children hp
  obtain ⟨d, hd⟩ := exists_mem_zip_of_left hchildren.length_eq hx
  have hparent := task.target.mem_children.1 (List.of_mem_zip hd).2
  have hne : d ≠ task.targetRoot := task.target.ne_root_of_parent hp.2.2 hparent
  have hpair := (List.forall₂_iff_zip.1 hchildren).2 hd
  simp [hpair.partner h.twins.oneToOne, targetParent, hne, hparent]

theorem settledChildren_eq (hp : task.Paired s t) :
    task.settledChildren task.start (task.number s) t = task.target.children t := by
  refine List.filter_eq_self.2 fun d hd => ?_
  have hchildren := h.paired_children hp
  obtain ⟨c, hc⟩ := exists_mem_zip_of_right hchildren.length_eq hd
  have hpair := (List.forall₂_iff_zip.1 hchildren).2 hc
  have hparent := task.source.mem_children.1 (List.of_mem_zip hc).1
  have hne : c ≠ task.sourceRoot := task.source.ne_root_of_parent hp.2.1 hparent
  simp [hpair.standIn h.twins.oneToOne, start_parent hpair.2.1, hne, hparent]

/-- Siblings stand in order, so aligning them only marks them. -/
theorem alignChildren (hp : task.Paired s t) (hdraft : progress.draft = task.start) :
    ∃ inOrder, task.alignChildren progress (task.number s) t = .ok { progress with inOrder } := by
  have hrelated : List.Forall₂ (fun c d => (task.start.partners[c]? == some d) = true)
      ((task.source.children s).map task.number) (task.target.children t) := by
    refine List.forall₂_map_left_iff.2 ((h.paired_children hp).imp fun c d hcd => ?_)
    rw [hcd.partner h.twins.oneToOne, beq_self_eq_true]
  have hstays := Sequence.map_align_snd_of_forall₂ hrelated 0
  have hmoved : ((task.target.children t).filter fun d =>
      !(task.target.children t).contains d) = [] :=
    List.filter_eq_nil_iff.2 fun d hd => by simp [hd]
  have hunmark : (progress.unmark (task.target.children t)).draft = task.start := hdraft
  rw [Task.alignChildren]
  simp only [hunmark, h.placedChildren_eq hp, h.settledChildren_eq hp, hstays, hmoved,
    List.foldlM_nil]
  rw [foldl_mark]
  exact ⟨_, rfl⟩

/-- A target node is stood for by a copy with its label under the right parent. -/
theorem bring (hp : task.Paired s t) (hdraft : progress.draft = task.start)
    (hplace : task.start.place? (task.targetParent t) = some z) :
    task.bring progress t z = .ok progress := by
  have hlabel : task.start.work.label (task.number s) = task.target.label t := by
    rw [(start_node hp.2.1).2.1, (h.alike_of_paired hp).label_eq]
  have hparent : task.start.work.parent (task.number s) = some z := by
    rw [← h.place_eq hp, hplace]
  have hrelabel : task.relabel progress t (task.number s) = .ok progress := by
    rw [relabel, hdraft, hlabel, beq_self_eq_true, if_pos rfl]
  have hreparent : task.reparent progress t (task.number s) z = .ok progress := by
    rw [reparent, hdraft, hparent, beq_self_eq_true, if_pos rfl]
  simp only [Task.bring, hdraft, hp.standIn h.twins.oneToOne, hrelabel, ok_bind, hreparent]

/-- Visiting a target node performs no edit. -/
theorem visit (hdraft : progress.draft = task.start) (hedits : progress.edits = [])
    (ht : task.target.Within task.targetRoot t) :
    ∃ next, task.visit progress t = .ok next ∧ next.draft = task.start ∧ next.edits = [] := by
  obtain ⟨s, hp⟩ := h.exists_source ht
  obtain ⟨z, hz⟩ : ∃ z, task.start.place? (task.targetParent t) = some z := by
    rw [h.place_eq hp, start_parent hp.2.1]
    rcases h.paired_parents hp with ⟨rfl, -⟩ | ⟨p, q, hparent, -⟩
    · exact ⟨_, if_pos rfl⟩
    · rw [hparent]
      split
      · exact ⟨_, rfl⟩
      · exact ⟨_, rfl⟩
  have hmark : (progress.mark t).draft = task.start := hdraft
  obtain ⟨inOrder, halign⟩ := h.alignChildren hp hmark
  refine ⟨{ progress.mark t with inOrder }, ?_, hdraft, hedits⟩
  rw [Task.visit, hdraft, hz]
  simp only [h.bring hp hdraft hz, ok_bind, hdraft, hp.standIn h.twins.oneToOne]
  exact halign

/-- Every work node stands for a target node, so nothing is left over. -/
theorem deleteLeftOver (hdraft : progress.draft = task.start)
    (hw : w ∈ progress.draft.work.postorder) : Task.deleteLeftOver progress w = .ok progress := by
  have hclimbs : Climbs task.start.work.parent (task.start.work.next - ·) := by
    intro c p hparent
    have hlt := start_parent_lt hparent
    have hnext := WorkTree.lt_next_of_parent hparent
    show task.start.work.next - c < task.start.work.next - p
    omega
  have hnext : WorkTree.top < task.start.work.next := by
    rw [start_next]
    exact Nat.lt_of_lt_of_le Nat.one_pos (Nat.le_add_right ..)
  rw [hdraft, WorkTree.mem_postorder task.start_linked hclimbs hnext] at hw
  obtain ⟨htop, hup⟩ := hw
  have hlt : w < task.start.work.next := by
    rcases hup.eq_or_step with heq | ⟨p, hparent, -⟩
    · exact absurd heq htop
    · exact WorkTree.lt_next_of_parent hparent
  obtain ⟨s, hs, rfl⟩ := exists_number hlt htop
  obtain ⟨t, hp⟩ := h.exists_target hs
  have hcontains : progress.draft.partners.contains (task.number s) = true := by
    rw [hdraft, Std.TreeMap.contains_eq_isSome_getElem?, hp.partner h.twins.oneToOne]
    rfl
  rw [Task.deleteLeftOver, if_pos hcontains]
  rfl

/-- **There is nothing to do** for equal subtrees that are mapped along their preorders. -/
theorem script : task.script = .ok [] := by
  obtain ⟨visited, hvisit, hdraft, hedits⟩ :
      ∃ visited, ((task.target.preorder task.targetRoot).filter
        fun t => !task.targetSide.carried t).foldlM task.visit { draft := task.start } =
          .ok visited ∧ visited.draft = task.start ∧ visited.edits = [] := by
    refine foldlM_ok
      (fun _ (progress : Progress) => progress.draft = task.start ∧ progress.edits = [])
      ⟨rfl, rfl⟩ ?_
    intro seen t rest progress hlist ⟨hdraft, hedits⟩
    have hmem : t ∈ (task.target.preorder task.targetRoot).filter
        fun t => !task.targetSide.carried t := by
      rw [hlist]
      exact List.mem_append_right _ (List.mem_cons_self ..)
    exact h.visit hdraft hedits (task.target.mem_preorder.1 (List.mem_filter.1 hmem).1)
  have hreduce : visited.draft.work.postorder.foldlM Task.deleteLeftOver visited = .ok visited :=
    foldlM_fixed fun w hw => h.deleteLeftOver hdraft hw
  have harrive : task.targetSide.transferred = [] := (ScriptSide.transferred_eq_nil h.movedIn).2
  have hdone : task.edits = .ok [] := by
    rw [edits, h.clear_eq_start, hvisit, ok_bind, hreduce, ok_bind, harrive, List.foldlM_nil,
      ← hedits]
    rfl
  rw [Task.script, hdone]
  rfl

end Settled

/-! ### An empty script -/

theorem agreesAll_iff_forall₂ {work : WorkTree} {tree : Tree} {roses : List (Rose Nat)}
    {ws : List Nat} : work.agreesAll tree roses ws = true ↔
      List.Forall₂ (fun rose w => work.agrees tree rose w = true) roses ws := by
  induction roses generalizing ws with
  | nil => cases ws <;> simp [WorkTree.agreesAll]
  | cons rose roses ih =>
    cases ws with
    | nil => simp [WorkTree.agreesAll]
    | cons w ws => rw [WorkTree.agreesAll, Bool.and_eq_true, ih, List.forall₂_cons]

/-- If the copy of a source subtree agrees with a target subtree, the two are equal. -/
theorem alike_of_start_agrees (hs : task.source.Within task.sourceRoot s)
    (h : task.start.work.agrees task.target (task.target.subtree t) (task.number s) = true) :
    task.source.Alike task.target s t := by
  induction hn : task.target.size - t using Nat.strongRecOn generalizing s t with
  | ind n ih =>
    have hlabel : (task.start.work.node (task.number s)).label = task.source.label s :=
      (start_node hs).2.1
    rw [Tree.subtree_eq, WorkTree.agrees, Bool.and_eq_true, Bool.and_eq_true, beq_iff_eq,
      beq_iff_eq, (start_node hs).1, hlabel, start_children hs, agreesAll_iff_forall₂,
      List.forall₂_map_left_iff, List.forall₂_map_right_iff] at h
    obtain ⟨⟨hkind, hlabel⟩, hbelow⟩ := h
    obtain ⟨hlength, hbelow⟩ := List.forall₂_iff_get.1 hbelow
    refine Tree.alike_iff.2 ⟨hkind, hlabel, List.forall₂_iff_get.2 ⟨hlength.symm, ?_⟩⟩
    intro i hc hd
    have hchild := task.source.mem_children.1 (List.get_mem (task.source.children s) ⟨i, hc⟩)
    have hlt := task.target.lt_of_mem_children (List.get_mem (task.target.children t) ⟨i, hd⟩)
    have hsize := task.target.lt_size_of_mem_children
      (List.get_mem (task.target.children t) ⟨i, hd⟩)
    exact ih _ (by omega) (Leads.step hchild hs) (hbelow i hd hc) rfl

/-- A script without edits leads to the copy of the source, so the source equals the target. -/
theorem Made.alike {draft : Draft} (h : task.Made [] draft)
    (hreaches : reaches task.target task.targetRoot draft = true) :
    task.source.Alike task.target task.sourceRoot task.targetRoot := by
  obtain rfl : task.start = draft := Except.ok.inj h.recorded
  have hself : task.source.Within task.sourceRoot task.sourceRoot := Leads.refl _
  have hroot : task.number task.sourceRoot ∈ task.start.work.children WorkTree.top := by
    rw [task.start_linked.mem_down, start_parent hself, if_pos rfl]
  unfold reaches at hreaches
  split at hreaches
  · rename_i w hw
    rw [hw, List.mem_singleton] at hroot
    rw [← hroot] at hreaches
    exact alike_of_start_agrees hself hreaches
  · cases hreaches

end Script.Task

end Reshape
