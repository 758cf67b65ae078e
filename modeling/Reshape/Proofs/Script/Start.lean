import Mathlib
import Reshape.Proofs.Mapping
import Reshape.Proofs.Script.WorkTree
import Reshape.Script.Build

/-! # The draft a script starts from

The first draft is a copy of the source subtree below the top.  The copy of a source node stands for
a target node exactly if the mapping pairs the two and both belong to the subtrees that are
compared. -/

namespace Reshape

namespace Draft

/-! ### Linking nodes one after the other -/

theorem standIns_link (draft : Draft) (w t x : Nat) :
    (draft.link w t).standIns[x]? = if t = x then some w else draft.standIns[x]? := by
  simp [link, Std.TreeMap.getElem?_insert]

theorem partners_link (draft : Draft) (w t v : Nat) :
    (draft.link w t).partners[v]? = if w = v then some t else draft.partners[v]? := by
  simp [link, Std.TreeMap.getElem?_insert]

/-- Link a list of target nodes, each with the work node that is to stand for it. -/
def linkAll (draft : Draft) (links : List (Nat × Nat)) : Draft :=
  links.foldl (fun draft (t, w) => draft.link w t) draft

theorem linkAll_cons (draft : Draft) (t w : Nat) (links : List (Nat × Nat)) :
    draft.linkAll ((t, w) :: links) = (draft.link w t).linkAll links := rfl

@[simp] theorem linkAll_work (draft : Draft) (links : List (Nat × Nat)) :
    (draft.linkAll links).work = draft.work := by
  induction links generalizing draft with
  | nil => rfl
  | cons link links ih => rw [linkAll_cons, ih]; rfl

@[simp] theorem linkAll_copies (draft : Draft) (links : List (Nat × Nat)) :
    (draft.linkAll links).copies = draft.copies := by
  induction links generalizing draft with
  | nil => rfl
  | cons link links ih => rw [linkAll_cons, ih]; rfl

theorem standIns_linkAll (draft : Draft) {links : List (Nat × Nat)}
    (hnodup : (links.map Prod.fst).Nodup) (t w : Nat) :
    (draft.linkAll links).standIns[t]? = some w ↔
      (t, w) ∈ links ∨ (t ∉ links.map Prod.fst ∧ draft.standIns[t]? = some w) := by
  induction links generalizing draft with
  | nil => simp [linkAll]
  | cons link links ih =>
    obtain ⟨x, v⟩ := link
    obtain ⟨hx, hnodup⟩ := List.nodup_cons.1 hnodup
    rw [linkAll_cons, ih _ hnodup, standIns_link, List.map_cons, List.mem_cons, List.mem_cons]
    by_cases ht : x = t
    · subst ht
      have hnot : (x, w) ∉ links := fun h => hx (List.mem_map.2 ⟨_, h, rfl⟩)
      simp only [hnot, ↓reduceIte, Option.some.injEq, false_or, Prod.mk.injEq, true_and, or_false,
        true_or, not_true_eq_false, false_and]
      exact ⟨fun h => h.2.symm, fun h => ⟨hx, h.symm⟩⟩
    · have ht' : ¬ t = x := fun h => ht h.symm
      simp [ht, ht']

theorem partners_linkAll (draft : Draft) {links : List (Nat × Nat)}
    (hnodup : (links.map Prod.snd).Nodup) (w t : Nat) :
    (draft.linkAll links).partners[w]? = some t ↔
      (t, w) ∈ links ∨ (w ∉ links.map Prod.snd ∧ draft.partners[w]? = some t) := by
  induction links generalizing draft with
  | nil => simp [linkAll]
  | cons link links ih =>
    obtain ⟨x, v⟩ := link
    obtain ⟨hv, hnodup⟩ := List.nodup_cons.1 hnodup
    rw [linkAll_cons, ih _ hnodup, partners_link, List.map_cons, List.mem_cons, List.mem_cons]
    by_cases hw : v = w
    · subst hw
      have hnot : (t, v) ∉ links := fun h => hv (List.mem_map.2 ⟨_, h, rfl⟩)
      simp only [hnot, ↓reduceIte, Option.some.injEq, false_or, Prod.mk.injEq, and_true, or_false,
        true_or, not_true_eq_false, false_and]
      exact ⟨fun h => h.2.symm, fun h => ⟨hv, h.symm⟩⟩
    · have hw' : ¬ w = v := fun h => hw h.symm
      simp [hw, hw']

/-- What a pair of the mapping links, if anything. -/
def linkOf? (target : Tree) (targetRoot : Nat) (copies : Std.TreeMap Nat Nat) (pair : Nat × Nat) :
    Option (Nat × Nat) :=
  match copies[pair.1]? with
  | some w => if target.isAncestorOrSelf targetRoot pair.2 then some (pair.2, w) else none
  | none => none

theorem linkOf?_eq_some {target : Tree} {targetRoot : Nat} {copies : Std.TreeMap Nat Nat}
    {s t x w : Nat} : linkOf? target targetRoot copies (s, x) = some (t, w) ↔
      x = t ∧ copies[s]? = some w ∧ target.Within targetRoot t := by
  unfold linkOf?
  cases hw : copies[s]? with
  | none => simp
  | some v =>
    by_cases hin : target.isAncestorOrSelf targetRoot x = true
    · simp only [hin, ↓reduceIte, Option.some.injEq, Prod.mk.injEq]
      constructor
      · rintro ⟨rfl, rfl⟩
        exact ⟨rfl, rfl, target.isAncestorOrSelf_iff.1 hin⟩
      · rintro ⟨rfl, rfl, -⟩
        exact ⟨rfl, rfl⟩
    · simp only [hin, Bool.false_eq_true, ↓reduceIte, reduceCtorEq, false_iff]
      rintro ⟨rfl, -, h⟩
      exact hin (target.isAncestorOrSelf_iff.2 h)

theorem foldl_linkPair {target : Tree} {targetRoot : Nat} (draft : Draft)
    (pairs : List (Nat × Nat)) : pairs.foldl (linkPair target targetRoot) draft =
      draft.linkAll (pairs.filterMap (linkOf? target targetRoot draft.copies)) := by
  induction pairs generalizing draft with
  | nil => rfl
  | cons pair pairs ih =>
    rw [List.foldl_cons, ih, List.filterMap_cons]
    cases hw : draft.copies[pair.1]? with
    | none => simp only [linkPair, linkOf?, hw]
    | some w =>
      by_cases hin : target.isAncestorOrSelf targetRoot pair.2 = true
      · simp only [linkPair, linkOf?, hw, hin, ↓reduceIte]
        rfl
      · simp only [linkPair, linkOf?, hw, hin, Bool.false_eq_true, ↓reduceIte]

end Draft

namespace Script.Task

variable {task : Task} {s t w : Nat}

/-- The number of the copy of a source node. -/
def number (task : Task) (s : Nat) : Nat :=
  WorkTree.copyNumber task.source task.sourceRoot 1 s

/-- The mapping pairs two nodes, and both belong to the subtrees that are compared. -/
def Paired (task : Task) (s t : Nat) : Prop :=
  task.mapping.target? s = some t ∧ task.source.Within task.sourceRoot s ∧
    task.target.Within task.targetRoot t

theorem number_inj {s s' : Nat} (hs : task.source.Within task.sourceRoot s)
    (h : task.number s = task.number s') : s = s' :=
  WorkTree.copyNumber_inj hs h

theorem number_pos (task : Task) (s : Nat) : 0 < task.number s :=
  WorkTree.le_copyNumber ..

theorem number_ne_top (task : Task) (s : Nat) : task.number s ≠ WorkTree.top :=
  Nat.ne_of_gt (task.number_pos s)

theorem start_eq (task : Task) : task.start =
    Draft.linkAll
      { work := ((WorkTree.blank.copySubtree task.source task.sourceRoot true).attach? WorkTree.top
          0 1).getD (WorkTree.blank.copySubtree task.source task.sourceRoot true)
        copies := Std.TreeMap.ofList (WorkTree.copyNumbers task.source task.sourceRoot 1) }
      (task.mapping.pairs.filterMap (Draft.linkOf? task.target task.targetRoot
        (Std.TreeMap.ofList (WorkTree.copyNumbers task.source task.sourceRoot 1)))) :=
  Draft.foldl_linkPair _ _

/-- Exactly the nodes of the source subtree have copies. -/
theorem start_copies : task.start.copies[s]? = some w ↔
    task.source.Within task.sourceRoot s ∧ w = task.number s := by
  rw [start_eq, Draft.linkAll_copies]
  have hdistinct : (WorkTree.copyNumbers task.source task.sourceRoot 1).Pairwise
      fun a b => ¬ compare a.1 b.1 = .eq := by
    have hnodup := task.source.nodup_preorder task.sourceRoot
    rw [← List.zipIdx_map_fst 1 (task.source.preorder task.sourceRoot)] at hnodup
    exact (List.pairwise_map.1 hnodup).imp fun h => by simpa using h
  by_cases hs : task.source.Within task.sourceRoot s
  · have hmem : (s, task.number s) ∈ WorkTree.copyNumbers task.source task.sourceRoot 1 :=
      WorkTree.mem_copyNumbers.2 ⟨hs, rfl⟩
    rw [Std.TreeMap.getElem?_ofList_of_mem (by simp : compare s s = .eq) hdistinct hmem]
    simp [hs, number, eq_comm]
  · rw [Std.TreeMap.getElem?_ofList_of_contains_eq_false]
    · simp [hs]
    · rw [← Bool.not_eq_true, List.contains_iff_mem, WorkTree.copyNumbers, List.zipIdx_map_fst,
        task.source.mem_preorder]
      exact hs

/-- **The links of the first draft** are the pairs of the mapping within the two subtrees. -/
theorem start_links (hone : task.mapping.OneToOne) (t w : Nat) :
    (task.start.standIns[t]? = some w ↔ ∃ s, task.Paired s t ∧ w = task.number s) ∧
    (task.start.partners[w]? = some t ↔ ∃ s, task.Paired s t ∧ w = task.number s) := by
  have hmem : ∀ t w, (t, w) ∈ task.mapping.pairs.filterMap (Draft.linkOf? task.target
      task.targetRoot task.start.copies) ↔ ∃ s, task.Paired s t ∧ w = task.number s := by
    intro t w
    rw [List.mem_filterMap]
    constructor
    · rintro ⟨⟨s, x⟩, hpair, hlink⟩
      obtain ⟨rfl, hcopy, ht⟩ := Draft.linkOf?_eq_some.1 hlink
      obtain ⟨hs, rfl⟩ := start_copies.1 hcopy
      exact ⟨s, ⟨Mapping.mem_pairs.1 hpair, hs, ht⟩, rfl⟩
    · rintro ⟨s, ⟨hpair, hs, ht⟩, rfl⟩
      exact ⟨(s, t), Mapping.mem_pairs.2 hpair,
        Draft.linkOf?_eq_some.2 ⟨rfl, start_copies.2 ⟨hs, rfl⟩, ht⟩⟩
  have hfst : ((task.mapping.pairs.filterMap (Draft.linkOf? task.target task.targetRoot
      task.start.copies)).map Prod.fst).Nodup := by
    refine List.pairwise_map.2 (List.pairwise_filterMap.2 ?_)
    refine (List.pairwise_map.1 hone.nodup_pairs_snd).imp ?_
    rintro ⟨s, x⟩ ⟨s', x'⟩ hne ⟨t, w⟩ hlink ⟨t', w'⟩ hlink' heq
    obtain ⟨rfl, -⟩ := Draft.linkOf?_eq_some.1 hlink
    obtain ⟨rfl, -⟩ := Draft.linkOf?_eq_some.1 hlink'
    exact hne heq
  have hsnd : ((task.mapping.pairs.filterMap (Draft.linkOf? task.target task.targetRoot
      task.start.copies)).map Prod.snd).Nodup := by
    refine List.pairwise_map.2 (List.pairwise_filterMap.2 ?_)
    refine (List.pairwise_map.1 task.mapping.nodup_pairs_fst).imp ?_
    rintro ⟨s, x⟩ ⟨s', x'⟩ hne ⟨t, w⟩ hlink ⟨t', w'⟩ hlink' (heq : w = w')
    obtain ⟨-, hcopy, -⟩ := Draft.linkOf?_eq_some.1 hlink
    obtain ⟨-, hcopy', -⟩ := Draft.linkOf?_eq_some.1 hlink'
    obtain ⟨hs, rfl⟩ := start_copies.1 hcopy
    obtain ⟨-, rfl⟩ := start_copies.1 hcopy'
    exact hne (number_inj hs heq)
  have hcopies : task.start.copies =
      Std.TreeMap.ofList (WorkTree.copyNumbers task.source task.sourceRoot 1) := by
    rw [start_eq, Draft.linkAll_copies]
  rw [← hmem]
  rw [hcopies] at hfst hsnd ⊢
  rw [start_eq, Draft.standIns_linkAll _ hfst, Draft.partners_linkAll _ hsnd]
  simp

theorem Paired.standIn (h : task.Paired s t) (hone : task.mapping.OneToOne) :
    task.start.standIns[t]? = some (task.number s) :=
  (start_links hone t _).1.2 ⟨s, h, rfl⟩

theorem Paired.partner (h : task.Paired s t) (hone : task.mapping.OneToOne) :
    task.start.partners[task.number s]? = some t :=
  (start_links hone t _).2.2 ⟨s, h, rfl⟩

/-! ### The work tree of the first draft -/

/-- The copy of the source root is put below the top. -/
theorem start_places (task : Task) :
    WorkTree.Rearranges (WorkTree.blank.copySubtree task.source task.sourceRoot true)
      task.start.work ∧
    WorkTree.Places (WorkTree.blank.copySubtree task.source task.sourceRoot true)
      task.start.work 1 WorkTree.top 0 ∧
    (WorkTree.blank.copySubtree task.source task.sourceRoot true).Linked := by
  have hblank : WorkTree.blank.Linked := by
    have hnode : ∀ c, WorkTree.blank.node c = {} := by
      intro c
      cases c with
      | zero => rfl
      | succ c => exact WorkTree.node_of_next_le (Nat.succ_le_succ (Nat.zero_le c))
    refine ⟨fun {c p} => ?_, fun p => ?_⟩
    · simp [WorkTree.children, WorkTree.parent, hnode]
    · simp [WorkTree.children, hnode]
  have hlinked := WorkTree.linked_copySubtree task.source task.sourceRoot true hblank
  have hroot := WorkTree.node_copySubtree WorkTree.blank true
    (Leads.refl _ : task.source.Within task.sourceRoot task.sourceRoot)
  have hnumber : WorkTree.copyNumber task.source task.sourceRoot WorkTree.blank.next
      task.sourceRoot = 1 := WorkTree.copyNumber_root
  rw [hnumber] at hroot
  have hlen : 0 < (task.source.preorder task.sourceRoot).length := by
    rw [Tree.preorder_eq_cons]
    exact Nat.succ_pos _
  have hnext : WorkTree.blank.next = 1 := rfl
  obtain ⟨work, hattach, hr, hp⟩ := WorkTree.exists_place hlinked (p := WorkTree.top) (w := 1)
    (k := 0) (by rw [WorkTree.next_copySubtree]; simp [WorkTree.top, hnext])
    (by rw [WorkTree.next_copySubtree, hnext]; omega) (by rw [WorkTree.parent, hroot]; simp)
    (Nat.zero_le _)
  have hwork : task.start.work = work := by
    rw [start_eq, Draft.linkAll_work]
    simp [hattach]
  rw [hwork]
  exact ⟨hr, hp, hlinked⟩

theorem start_linked (task : Task) : task.start.work.Linked := by
  obtain ⟨-, hp, hl⟩ := task.start_places
  exact hp.linked hl

theorem start_next (task : Task) :
    task.start.work.next = 1 + (task.source.preorder task.sourceRoot).length := by
  rw [task.start_places.1.next_eq, WorkTree.next_copySubtree]
  rfl

theorem number_lt_next (h : task.source.Within task.sourceRoot s) :
    task.number s < task.start.work.next := by
  rw [task.start_places.1.next_eq]
  exact WorkTree.copyNumber_lt_next WorkTree.blank true h

/-- Every node of the first draft other than the top is a copy. -/
theorem exists_number (hw : w < task.start.work.next) (htop : w ≠ WorkTree.top) :
    ∃ s, task.source.Within task.sourceRoot s ∧ w = task.number s := by
  rw [task.start_places.1.next_eq] at hw
  have hpos : WorkTree.blank.next ≤ w := Nat.pos_of_ne_zero htop
  exact WorkTree.exists_copied hpos hw

theorem number_sourceRoot (task : Task) : task.number task.sourceRoot = 1 :=
  WorkTree.copyNumber_root

theorem start_node (h : task.source.Within task.sourceRoot s) :
    (task.start.work.node (task.number s)).kind = task.source.kind s ∧
    task.start.work.label (task.number s) = task.source.label s ∧
    task.start.work.origin (task.number s) = some s := by
  obtain ⟨hr, -, -⟩ := task.start_places
  have hnode := WorkTree.node_copySubtree WorkTree.blank true h
  rw [hr.kind_eq, hr.label_eq, hr.origin_eq, WorkTree.label, WorkTree.origin, number]
  have hnext : WorkTree.blank.next = 1 := rfl
  rw [hnext] at hnode
  rw [hnode]
  exact ⟨rfl, rfl, rfl⟩

/-- A copy stands below the copy of the parent, that of the root below the top. -/
theorem start_parent (h : task.source.Within task.sourceRoot s) :
    task.start.work.parent (task.number s) =
      if s = task.sourceRoot then some WorkTree.top
      else (task.source.parent s).map task.number := by
  obtain ⟨-, hp, -⟩ := task.start_places
  have hnode := WorkTree.node_copySubtree WorkTree.blank true h
  have hnext : WorkTree.blank.next = 1 := rfl
  rw [hnext] at hnode
  rw [hp.parent_eq]
  by_cases hs : s = task.sourceRoot
  · simp [hs, number_sourceRoot]
  · have hne : task.number s ≠ 1 := by
      rw [← task.number_sourceRoot]
      exact fun heq => hs (number_inj h heq)
    rw [if_neg hne, if_neg hs, WorkTree.parent, number, hnode]
    simp only [hs, ↓reduceIte]
    rfl

theorem start_parent_top (task : Task) : task.start.work.parent WorkTree.top = none := by
  obtain ⟨-, hp, -⟩ := task.start_places
  rw [hp.parent_eq, if_neg (by decide), WorkTree.parent,
    WorkTree.node_copySubtree_of_lt _ _ _ (by decide : WorkTree.top < WorkTree.blank.next)]
  rfl

/-- Numbers grow on the way down. -/
theorem start_parent_lt {c p : Nat} (h : task.start.work.parent c = some p) : p < c := by
  have htop : c ≠ WorkTree.top := by
    rintro rfl
    rw [start_parent_top] at h
    cases h
  obtain ⟨s, hs, rfl⟩ := exists_number (WorkTree.lt_next_of_parent h) htop
  rw [start_parent hs] at h
  by_cases hroot : s = task.sourceRoot
  · obtain rfl : WorkTree.top = p := by simpa [hroot] using h
    exact task.number_pos s
  · rcases hs.eq_or_step with heq | ⟨q, hq, hwithin⟩
    · exact absurd heq hroot
    · obtain rfl : task.number q = p := by simpa [hroot, hq] using h
      exact WorkTree.copyNumber_lt hwithin hq

/-- The children of a copy are the copies of the children. -/
theorem start_children (h : task.source.Within task.sourceRoot s) :
    task.start.work.children (task.number s) = (task.source.children s).map task.number := by
  obtain ⟨-, hp, hl⟩ := task.start_places
  have hnode := WorkTree.node_copySubtree WorkTree.blank true h
  have hnext : WorkTree.blank.next = 1 := rfl
  rw [hnext] at hnode
  rw [hp.children_eq, if_neg (task.number_ne_top s), WorkTree.children, number, hnode]
  refine List.filter_eq_self.2 fun c hc => ?_
  obtain ⟨x, hx, rfl⟩ := List.mem_map.1 hc
  -- The root of the subtree is no child of a node within it.
  have hx' : task.number x ≠ 1 := by
    have hlt : task.number s < task.number x :=
      WorkTree.copyNumber_lt h (task.source.mem_children.1 hx)
    have hpos := task.number_pos s
    omega
  exact bne_iff_ne.2 hx'

end Script.Task

end Reshape
