import Mathlib
import Reshape.Proofs.Tree
import Reshape.Script.WorkTree

/-! # What the operations on work trees do

Detaching and attaching rearrange the nodes of a work tree and change nothing else about them.  Two
compositions occur while a tree is edited: a node is *placed* somewhere, be it new or moved there,
and nodes are *pruned* one after the other.  Both keep a work tree a forest.

The copies of a subtree have consecutive numbers, in preorder, and are linked among themselves as
the nodes that they copy. -/

namespace Reshape.WorkTree

variable {work work' : WorkTree} {w p k c : Nat}

/-- Parents and children of a work tree fit together. -/
abbrev Linked (work : WorkTree) : Prop := IsForest work.parent work.children

/-- The nodes of two work trees agree in all but their places. -/
structure Rearranges (work work' : WorkTree) : Prop where
  next_eq : work'.next = work.next
  kind_eq : ∀ c, (work'.node c).kind = (work.node c).kind
  label_eq : ∀ c, work'.label c = work.label c
  origin_eq : ∀ c, work'.origin c = work.origin c

theorem Rearranges.refl (work : WorkTree) : Rearranges work work :=
  ⟨rfl, fun _ => rfl, fun _ => rfl, fun _ => rfl⟩

theorem Rearranges.trans {work'' : WorkTree} (h : Rearranges work work')
    (h' : Rearranges work' work'') : Rearranges work work'' where
  next_eq := h'.next_eq.trans h.next_eq
  kind_eq c := (h'.kind_eq c).trans (h.kind_eq c)
  label_eq c := (h'.label_eq c).trans (h.label_eq c)
  origin_eq c := (h'.origin_eq c).trans (h.origin_eq c)

/-! ### Single operations -/

theorem eq_of_node_eq (hnext : work.next = work'.next)
    (hnode : ∀ c, work.node c = work'.node c) : work = work' := by
  obtain ⟨nodes⟩ := work
  obtain ⟨nodes'⟩ := work'
  refine congrArg WorkTree.mk (Array.ext hnext fun c hc hc' => ?_)
  have hc := hnode c
  simp only [node] at hc
  rwa [Array.getElem?_eq_getElem, Array.getElem?_eq_getElem, Option.getD_some,
    Option.getD_some] at hc

theorem node_of_next_le (h : work.next ≤ c) : work.node c = {} := by
  unfold node
  rw [Array.getElem?_eq_none h]
  rfl

theorem lt_next_of_parent (h : work.parent c = some p) : c < work.next := by
  by_contra hc
  rw [parent, node_of_next_le (Nat.le_of_not_lt hc)] at h
  cases h

theorem node_modify (work : WorkTree) (w c : Nat) (f : WorkNode → WorkNode) :
    (work.modify w f).node c =
      if w = c ∧ c < work.next then f (work.node c) else work.node c := by
  unfold modify node next
  rw [Array.getElem?_modify]
  by_cases hw : w = c
  · by_cases hc : c < work.nodes.size
    · simp [hw, hc]
    · simp [hw, hc]
  · simp [hw]

@[simp] theorem next_modify (work : WorkTree) (w : Nat) (f : WorkNode → WorkNode) :
    (work.modify w f).next = work.next := by
  simp [modify, next]

theorem node_push (work : WorkTree) (node : WorkNode) (c : Nat) :
    (work.push node).node c = if c = work.next then node else work.node c := by
  unfold push WorkTree.node next
  rw [Array.getElem?_push]
  split <;> rfl

@[simp] theorem next_push (work : WorkTree) (node : WorkNode) :
    (work.push node).next = work.next + 1 := by
  simp [push, next]

theorem rearranges_detach (work : WorkTree) (w : Nat) : Rearranges work (work.detach w) := by
  unfold detach
  cases work.parent w with
  | none => exact Rearranges.refl work
  | some p =>
    refine ⟨by simp, ?_, ?_, ?_⟩ <;> intro c <;> simp only [label, origin, node_modify] <;>
      split <;> (try split) <;> rfl

@[simp] theorem parent_detach (work : WorkTree) (w c : Nat) :
    (work.detach w).parent c = if c = w then none else work.parent c := by
  unfold detach
  cases hw : work.parent w with
  | none =>
    by_cases hc : c = w
    · simp [hc, hw]
    · simp [hc]
  | some p =>
    have hlt := lt_next_of_parent hw
    have hparent : ((work.modify w fun node => { node with parent := none }).node c).parent =
        if c = w then none else work.parent c := by
      rw [node_modify]
      by_cases hc : c = w
      · simp [hc, hlt]
      · have hc' : ¬ w = c := fun h => hc h.symm
        simp [hc, hc', parent]
    simp only [parent] at hparent ⊢
    rw [← hparent, node_modify]
    split <;> rfl

theorem children_detach_eq (work : WorkTree) (w c : Nat) : (work.detach w).children c =
    if work.parent w = some c then (work.children c).filter (· != w) else work.children c := by
  unfold detach
  cases hw : work.parent w with
  | none => simp
  | some p =>
    by_cases hc : p = c
    · subst hc
      by_cases hlt : p < work.next
      · simp only [children, node_modify, next_modify, hlt, and_self, ↓reduceIte]
        split <;> rfl
      · simp [children, node_modify, next_modify, hlt, node_of_next_le (Nat.le_of_not_lt hlt)]
    · simp only [children, node_modify, Option.some.injEq, hc, false_and, ↓reduceIte]
      split <;> rfl

theorem children_detach (hl : work.Linked) (w p : Nat) :
    (work.detach w).children p = (work.children p).filter (· != w) := by
  rw [children_detach_eq]
  by_cases hw : work.parent w = some p
  · rw [if_pos hw]
  · rw [if_neg hw]
    refine (List.filter_eq_self.2 fun c hc => ?_).symm
    have hne : c ≠ w := fun h => hw (hl.mem_down.1 (h ▸ hc))
    simpa using hne

/-- Two nodes are taken away in any order. -/
theorem detach_comm (work : WorkTree) (v w : Nat) :
    (work.detach v).detach w = (work.detach w).detach v := by
  by_cases hvw : v = w
  · rw [hvw]
  have hrearranges := fun a b => (rearranges_detach work a).trans (rearranges_detach _ b)
  refine eq_of_node_eq ((hrearranges v w).next_eq.trans (hrearranges w v).next_eq.symm) fun c => ?_
  have hparent : ((work.detach v).detach w).parent c = ((work.detach w).detach v).parent c := by
    rw [parent_detach, parent_detach, parent_detach, parent_detach]
    split <;> split <;> rfl
  have hchildren : ((work.detach v).detach w).children c =
      ((work.detach w).detach v).children c := by
    rw [children_detach_eq, children_detach_eq, children_detach_eq, children_detach_eq,
      parent_detach, parent_detach, if_neg hvw, if_neg (Ne.symm hvw)]
    split <;> split <;> simp [List.filter_filter, Bool.and_comm]
  have hkind := ((hrearranges v w).kind_eq c).trans ((hrearranges w v).kind_eq c).symm
  have hlabel := ((hrearranges v w).label_eq c).trans ((hrearranges w v).label_eq c).symm
  have horigin := ((hrearranges v w).origin_eq c).trans ((hrearranges w v).origin_eq c).symm
  rw [WorkNode.mk.injEq]
  exact ⟨hkind, hlabel, hparent, hchildren, horigin⟩

/-- Attaching succeeds at every position up to the end. -/
theorem exists_attach (hp : p < work.next) (hw : w < work.next)
    (hk : k ≤ (work.children p).length) :
    ∃ work', work.attach? p k w = some work' ∧ Rearranges work work' ∧
      (∀ c, work'.parent c = if c = w then some p else work.parent c) ∧
      ∀ q, work'.children q =
        if q = p then (work.children p).insertIdx k w else work.children q := by
  refine ⟨_, if_pos hk, ⟨by simp, ?_, ?_, ?_⟩, ?_, ?_⟩
  · intro c
    simp only [node_modify]
    split <;> (try split) <;> rfl
  · intro c
    simp only [label, node_modify]
    split <;> (try split) <;> rfl
  · intro c
    simp only [origin, node_modify]
    split <;> (try split) <;> rfl
  · intro c
    simp only [parent, node_modify, next_modify]
    by_cases hc : c = w
    · simp [hc, hw]
    · have hc' : ¬ w = c := fun h => hc h.symm
      simp only [hc, hc', false_and, ↓reduceIte]
      split <;> rfl
  · intro q
    simp only [children, node_modify, next_modify]
    by_cases hq : q = p
    · subst hq
      split <;> simp [hp]
    · have hq' : ¬ p = q := fun h => hq h.symm
      simp only [hq, hq', false_and, ↓reduceIte]
      split <;> rfl

/-! ### Placing a node -/

/-- A node, which may have stood elsewhere or nowhere, now stands at a position below a parent. -/
structure Places (work work' : WorkTree) (w p k : Nat) : Prop where
  fits : k ≤ ((work.children p).filter (· != w)).length
  parent_eq : ∀ c, work'.parent c = if c = w then some p else work.parent c
  children_eq : ∀ q, work'.children q =
    if q = p then ((work.children p).filter (· != w)).insertIdx k w
    else (work.children q).filter (· != w)

theorem Places.linked (h : Places work work' w p k) (hl : work.Linked) : work'.Linked where
  mem_down := by
    intro c q
    rw [h.children_eq, h.parent_eq]
    by_cases hq : q = p
    · subst hq
      simp only [↓reduceIte, List.mem_insertIdx h.fits, List.mem_filter, hl.mem_down]
      by_cases hc : c = w <;> simp [hc]
    · simp only [hq, ↓reduceIte, List.mem_filter, hl.mem_down]
      by_cases hc : c = w
      · simp [hc, Ne.symm hq]
      · simp [hc]
  nodup_down := by
    intro q
    rw [h.children_eq]
    split
    · rw [(List.perm_insertIdx w _ h.fits).nodup_iff, List.nodup_cons]
      exact ⟨by simp, (hl.nodup_down p).filter _⟩
    · exact (hl.nodup_down q).filter _

/-- A node without a parent can be put into the tree. -/
theorem exists_place (hl : work.Linked) (hp : p < work.next) (hw : w < work.next)
    (horphan : work.parent w = none) (hk : k ≤ (work.children p).length) :
    ∃ work', work.attach? p k w = some work' ∧ Rearranges work work' ∧
      Places work work' w p k := by
  have hfilter : ∀ q, (work.children q).filter (· != w) = work.children q := by
    intro q
    refine List.filter_eq_self.2 fun c hc => ?_
    have hne : c ≠ w := by
      rintro rfl
      rw [hl.mem_down.1 hc] at horphan
      cases horphan
    simpa using hne
  obtain ⟨work', hattach, hr, hparent, hchildren⟩ := exists_attach hp hw hk
  refine ⟨work', hattach, hr, by rw [hfilter]; exact hk, hparent, ?_⟩
  intro q
  rw [hchildren, hfilter, hfilter]

/-- A node of the tree can be moved. -/
theorem exists_move (hl : work.Linked) (hp : p < work.next) (hw : w < work.next)
    (hk : k ≤ ((work.children p).filter (· != w)).length) :
    ∃ work', (work.detach w).attach? p k w = some work' ∧ Rearranges work work' ∧
      Places work work' w p k := by
  have hd := rearranges_detach work w
  obtain ⟨work', hattach, hr, hparent, hchildren⟩ := @exists_attach (work.detach w) w p k
    (by rw [hd.next_eq]; exact hp) (by rw [hd.next_eq]; exact hw)
    (by rw [children_detach hl]; exact hk)
  refine ⟨work', hattach, hd.trans hr, hk, ?_, ?_⟩
  · intro c
    rw [hparent]
    by_cases hc : c = w <;> simp [hc]
  · intro q
    rw [hchildren, children_detach hl, children_detach hl]

/-- A new node has neither a parent nor children. -/
theorem parent_push (work : WorkTree) (kind label : String) (c : Nat) :
    (work.push { kind, label }).parent c = work.parent c := by
  simp only [parent, node_push]
  split
  · rename_i hc
    rw [hc, node_of_next_le (Nat.le_refl _)]
  · rfl

theorem children_push (work : WorkTree) (kind label : String) (c : Nat) :
    (work.push { kind, label }).children c = work.children c := by
  simp only [children, node_push]
  split
  · rename_i hc
    rw [hc, node_of_next_le (Nat.le_refl _)]
  · rfl

/-- A new node can be put into the tree. -/
theorem exists_insert (hl : work.Linked) (hp : p < work.next)
    (hk : k ≤ (work.children p).length) (kind label : String) :
    ∃ work', (work.push { kind, label }).attach? p k work.next = some work' ∧
      Rearranges (work.push { kind, label }) work' ∧ Places work work' work.next p k := by
  have hl' : (work.push { kind, label }).Linked := by
    refine ⟨?_, ?_⟩
    · intro c q
      rw [children_push, parent_push]
      exact hl.mem_down
    · intro q
      rw [children_push]
      exact hl.nodup_down q
  obtain ⟨work', hattach, hr, hplaces⟩ := exists_place hl' (p := p) (w := work.next) (k := k)
    (by rw [next_push]; omega) (by rw [next_push]; omega)
    (by rw [parent_push, parent, node_of_next_le (Nat.le_refl _)]) (by rw [children_push]; exact hk)
  refine ⟨work', hattach, hr, ?_, ?_, ?_⟩
  · simpa only [children_push] using hplaces.fits
  · simpa only [parent_push] using hplaces.parent_eq
  · simpa only [children_push] using hplaces.children_eq

/-! ### Pruning -/

/-- Some nodes of a tree have been taken away from their parents. -/
structure Prunes (base : WorkTree) (gone : List Nat) (work : WorkTree) : Prop extends
    Rearranges base work where
  parent_eq : ∀ c, work.parent c = if c ∈ gone then none else base.parent c
  children_eq : ∀ p, work.children p = (base.children p).filter (· ∉ gone)

theorem Prunes.nil (work : WorkTree) : Prunes work [] work where
  toRearranges := Rearranges.refl work
  parent_eq := by simp
  children_eq := by simp

theorem Prunes.linked {base : WorkTree} {gone : List Nat} (h : Prunes base gone work)
    (hl : base.Linked) : work.Linked where
  mem_down := by
    intro c p
    rw [h.children_eq, h.parent_eq, List.mem_filter, hl.mem_down]
    by_cases hc : c ∈ gone <;> simp [hc]
  nodup_down p := by
    rw [h.children_eq]
    exact (hl.nodup_down p).filter _

theorem Prunes.detach {base : WorkTree} {gone : List Nat} (h : Prunes base gone work)
    (hl : base.Linked) (w : Nat) : Prunes base (gone ++ [w]) (work.detach w) where
  toRearranges := h.toRearranges.trans (rearranges_detach work w)
  parent_eq c := by
    rw [parent_detach, h.parent_eq]
    by_cases hc : c = w <;> simp [hc]
  children_eq p := by
    rw [children_detach (h.linked hl), h.children_eq, List.filter_filter]
    refine List.filter_congr fun c _ => ?_
    by_cases hc : c = w <;> simp [hc]

/-! ### Postorder -/

section Postorder

variable {rank : Nat → Nat}

/-- Without cycles, the postorder walk lists the postorder of the tree below the top. -/
theorem exists_postorder (hl : work.Linked) (hr : Climbs work.parent rank)
    (htop : top < work.next) : ∃ rose : Rose Nat, rose.value = top ∧ rose.Follows work.children ∧
      rose.postorder = work.postorder ++ [top] := by
  obtain ⟨⟨_, below⟩, rfl, hfollows⟩ := Rose.Follows.exists_of_climbs hl hr top
  refine ⟨_, rfl, hfollows, ?_⟩
  obtain ⟨hvalues, hall⟩ := hfollows
  have hsub : (Rose.node top below).preorder ⊆ List.range work.next := by
    intro c hc
    rw [(Rose.Follows.node hvalues hall).mem_preorder hl] at hc
    rcases hc.eq_or_step with rfl | ⟨p, hp, -⟩
    · exact List.mem_range.2 htop
    · exact List.mem_range.2 (lt_next_of_parent hp)
  have hlen := (List.subperm_of_subset
    ((Rose.Follows.node hvalues hall).nodup_preorder hl hr) hsub).length_le
  have hwalk := @Rose.Follows.postorder_walk work.children work.postorderFrom
    (fun fuel => by cases fuel <;> rfl) (fun _ _ _ => rfl) (fun _ _ _ => rfl)
    (2 * work.nodes.size) (below.map (·, false)) (by simpa using hall) (by
      rw [Rose.preorder_node, List.length_cons, List.length_flatMap, List.length_range,
        next] at hlen
      simp only [List.map_map, Function.comp_def, Bool.false_eq_true, ↓reduceIte,
        List.sum_map_mul_left]
      omega)
  have hstack : (below.map (·, false)).map (fun item => (item.1.value, item.2)) =
      (work.children top).map (·, false) := by
    rw [← hvalues]
    simp [Function.comp_def]
  rw [hstack, List.flatMap_map] at hwalk
  rw [Rose.postorder_node, postorder]
  exact congrArg (· ++ [top]) hwalk.symm

/-- The walk meets the nodes below the top. -/
theorem mem_postorder (hl : work.Linked) (hr : Climbs work.parent rank) (htop : top < work.next) :
    c ∈ work.postorder ↔ c ≠ top ∧ Leads work.parent c top := by
  obtain ⟨rose, hvalue, hfollows, hpost⟩ := exists_postorder hl hr htop
  have hnodup := hfollows.perm_postorder.nodup_iff.2 (hfollows.nodup_preorder hl hr)
  have hmem : c ∈ rose.postorder ↔ Leads work.parent c top := by
    rw [hfollows.perm_postorder.mem_iff, hfollows.mem_preorder hl, hvalue]
  rw [hpost] at hnodup hmem
  have hnot : c ∈ work.postorder → c ≠ top := by
    rintro h rfl
    exact (List.nodup_append.1 hnodup).2.2 top h top (by simp) rfl
  rw [← hmem, List.mem_append, List.mem_singleton]
  constructor
  · exact fun h => ⟨hnot h, Or.inl h⟩
  · rintro ⟨hne, h | h⟩
    · exact h
    · exact absurd h hne

theorem nodup_postorder (hl : work.Linked) (hr : Climbs work.parent rank) (htop : top < work.next) :
    work.postorder.Nodup := by
  obtain ⟨rose, -, hfollows, hpost⟩ := exists_postorder hl hr htop
  have hnodup := hfollows.perm_postorder.nodup_iff.2 (hfollows.nodup_preorder hl hr)
  rw [hpost] at hnodup
  exact (List.nodup_append.1 hnodup).1

/-- The walk meets children before their parents. -/
theorem child_mem_of_postorder (hl : work.Linked) (hr : Climbs work.parent rank)
    (htop : top < work.next) {seen rest : List Nat} (h : work.postorder = seen ++ p :: rest)
    (hc : c ∈ work.children p) : c ∈ seen := by
  obtain ⟨rose, -, hfollows, hpost⟩ := exists_postorder hl hr htop
  rw [h, List.append_assoc, List.cons_append] at hpost
  exact hfollows.mem_seen_of_postorder hpost hc

end Postorder

/-! ### Copies of a subtree -/

section Copies

variable (tree : Tree) (root base : Nat)

/-- The number of the copy of a node, if the first copy has the number `base`. -/
def copyNumber (id : Nat) : Nat :=
  base + (tree.preorder root).idxOf id

variable {tree root base} {id : Nat} {keep : Bool}

theorem lookup_zipIdx (ids : List Nat) (base id : Nat) :
    List.lookup id (ids.zipIdx base) = if id ∈ ids then some (base + ids.idxOf id) else none := by
  induction ids generalizing base with
  | nil => rfl
  | cons x ids ih =>
    rw [List.zipIdx_cons, List.lookup_cons]
    by_cases hx : id = x
    · subst hx
      simp
    · have hx' : ¬ x = id := fun h => hx h.symm
      have hbeq : (id == x) = false := by simpa using hx
      rw [hbeq, ih]
      simp only [List.mem_cons, hx, false_or, List.idxOf_cons_ne _ hx']
      split
      · congr 1
        omega
      · rfl

theorem lookup_copyNumbers (h : tree.Within root id) :
    List.lookup id (copyNumbers tree root base) = some (copyNumber tree root base id) := by
  rw [copyNumbers, lookup_zipIdx, if_pos (tree.mem_preorder.2 h), copyNumber]

theorem mem_copyNumbers {c : Nat} : (id, c) ∈ copyNumbers tree root base ↔
    tree.Within root id ∧ c = copyNumber tree root base id := by
  rw [copyNumbers, List.mem_zipIdx_iff_le_and_getElem?_sub, ← tree.mem_preorder, copyNumber]
  constructor
  · rintro ⟨hle, hget⟩
    obtain ⟨hlt, hget⟩ := List.getElem?_eq_some_iff.1 hget
    have hidx := (tree.nodup_preorder root).idxOf_getElem _ hlt
    have hmem := List.getElem_mem hlt
    simp only [hget] at hidx hmem hle
    exact ⟨hmem, by omega⟩
  · rintro ⟨hmem, rfl⟩
    have hlt := List.idxOf_lt_length_of_mem hmem
    refine ⟨by omega, ?_⟩
    rw [Nat.add_sub_cancel_left, List.getElem?_eq_getElem hlt, List.getElem_idxOf]

theorem copyNumber_inj {a b : Nat} (ha : tree.Within root a)
    (h : copyNumber tree root base a = copyNumber tree root base b) : a = b := by
  refine (List.idxOf_inj (tree.mem_preorder.2 ha)).1 ?_
  unfold copyNumber at h
  omega

@[simp] theorem copyNumber_root : copyNumber tree root base root = base := by
  rw [copyNumber, tree.preorder_eq_cons root, List.idxOf_cons_self, Nat.add_zero]

/-- A parent has a smaller number than its children. -/
theorem copyNumber_lt {p : Nat} (h : tree.Within root p) (hp : tree.parent id = some p) :
    copyNumber tree root base p < copyNumber tree root base id := by
  have hid : id ∈ tree.preorder root := tree.mem_preorder.2 (Leads.step hp h)
  have hne : id ≠ root := tree.ne_root_of_parent h hp
  obtain ⟨seen, rest, hsplit⟩ := List.append_of_mem hid
  obtain ⟨q, hq, hparent⟩ := tree.parent_mem_of_preorder hsplit hne
  obtain rfl : p = q := Option.some.inj (hp.symm.trans hparent)
  have hnodup := tree.nodup_preorder root
  rw [hsplit] at hnodup
  have hnot : id ∉ seen := fun h => (List.nodup_append.1 hnodup).2.2 id h id (by simp) rfl
  unfold copyNumber
  rw [hsplit, List.idxOf_append_of_mem hq, List.idxOf_append_of_notMem hnot, List.idxOf_cons_self]
  have := List.idxOf_lt_length_of_mem hq
  omega

theorem le_copyNumber (tree : Tree) (root base id : Nat) :
    base ≤ copyNumber tree root base id :=
  Nat.le_add_right _ _

theorem getElem?_copySubtree (c : Nat) : (work.copySubtree tree root keep).nodes[c]? =
    (work.nodes.toList ++ (tree.preorder root).map
      (copyNode tree root (copyNumbers tree root work.next) keep))[c]? := by
  rw [copySubtree, ← Array.getElem?_toList, Array.toList_appendList]

@[simp] theorem next_copySubtree :
    (work.copySubtree tree root keep).next = work.next + (tree.preorder root).length := by
  rw [next, copySubtree, ← Array.length_toList, Array.toList_appendList]
  simp [next]

theorem copyNumber_lt_next (work : WorkTree) (keep : Bool) (h : tree.Within root id) :
    copyNumber tree root work.next id < (work.copySubtree tree root keep).next := by
  have := List.idxOf_lt_length_of_mem (tree.mem_preorder.2 h)
  rw [next_copySubtree, copyNumber]
  omega

theorem node_copySubtree_of_lt (tree : Tree) (root : Nat) (keep : Bool) (h : c < work.next) :
    (work.copySubtree tree root keep).node c = work.node c := by
  have hsize : c < work.nodes.toList.length := h
  rw [node, getElem?_copySubtree, List.getElem?_append_left hsize, Array.getElem?_toList, node]

/-- Every number from the first copy on is the number of a copy. -/
theorem exists_copied (h : work.next ≤ c) (hc : c < (work.copySubtree tree root keep).next) :
    ∃ id, tree.Within root id ∧ c = copyNumber tree root work.next id := by
  rw [next_copySubtree] at hc
  have hlt : c - work.next < (tree.preorder root).length := by omega
  refine ⟨(tree.preorder root)[c - work.next], tree.mem_preorder.1 (List.getElem_mem hlt), ?_⟩
  rw [copyNumber, (tree.nodup_preorder root).idxOf_getElem _ hlt]
  omega

/-- A copy has the parent and the children of the node it copies. -/
theorem node_copySubtree (work : WorkTree) (keep : Bool) (h : tree.Within root id) :
    (work.copySubtree tree root keep).node (copyNumber tree root work.next id) =
      { kind := tree.kind id
        label := tree.label id
        parent := if id = root then none else (tree.parent id).map (copyNumber tree root work.next)
        children := (tree.children id).map (copyNumber tree root work.next)
        origin := if keep then some id else none } := by
  have hlt := List.idxOf_lt_length_of_mem (tree.mem_preorder.2 h)
  have hnode : (work.copySubtree tree root keep).node (copyNumber tree root work.next id) =
      copyNode tree root (copyNumbers tree root work.next) keep id := by
    have hge : work.nodes.toList.length ≤ copyNumber tree root work.next id :=
      le_copyNumber ..
    rw [node, getElem?_copySubtree, List.getElem?_append_right hge]
    have hsub : copyNumber tree root work.next id - work.nodes.toList.length =
        (tree.preorder root).idxOf id := Nat.add_sub_cancel_left ..
    rw [hsub, List.getElem?_map, List.getElem?_eq_getElem hlt, List.getElem_idxOf]
    rfl
  rw [hnode, copyNode]
  congr 1
  · by_cases hroot : id = root
    · simp [hroot]
    · rcases h.eq_or_step with h' | ⟨p, hp, hwithin⟩
      · exact absurd h' hroot
      · simp [hroot, hp, lookup_copyNumbers hwithin]
  · rw [List.filterMap_eq_map_iff_forall_eq_some.2]
    intro c hc
    exact lookup_copyNumbers (Leads.step (tree.mem_children.1 hc) h)

/-- A node is an old one, a copy, or out of range. -/
theorem copySubtree_cases (work : WorkTree) (tree : Tree) (root : Nat) (keep : Bool) (c : Nat) :
    c < work.next ∨ (∃ id, tree.Within root id ∧ c = copyNumber tree root work.next id) ∨
      (work.copySubtree tree root keep).next ≤ c := by
  by_cases hc : c < work.next
  · exact Or.inl hc
  · by_cases hc' : c < (work.copySubtree tree root keep).next
    · exact Or.inr (Or.inl (exists_copied (Nat.le_of_not_lt hc) hc'))
    · exact Or.inr (Or.inr (Nat.le_of_not_lt hc'))

theorem parent_of_mem_children_copySubtree (tree : Tree) (root : Nat) (keep : Bool)
    (hl : work.Linked) {c p : Nat} (hc : c ∈ (work.copySubtree tree root keep).children p) :
    (work.copySubtree tree root keep).parent c = some p := by
  rcases copySubtree_cases work tree root keep p with hp | ⟨id, hid, rfl⟩ | hp
  · rw [children, node_copySubtree_of_lt tree root keep hp] at hc
    have hparent := hl.mem_down.1 hc
    rw [parent, node_copySubtree_of_lt tree root keep (lt_next_of_parent hparent)]
    exact hparent
  · rw [children, node_copySubtree work keep hid] at hc
    obtain ⟨x, hx, rfl⟩ := List.mem_map.1 hc
    have hparent := tree.mem_children.1 hx
    have hne : x ≠ root := tree.ne_root_of_parent hid hparent
    rw [parent, node_copySubtree work keep (Leads.step hparent hid)]
    simp [hne, hparent]
  · rw [children, node_of_next_le hp] at hc
    cases hc

theorem mem_children_copySubtree_of_parent (tree : Tree) (root : Nat) (keep : Bool)
    (hl : work.Linked) {c p : Nat} (hc : (work.copySubtree tree root keep).parent c = some p) :
    c ∈ (work.copySubtree tree root keep).children p := by
  rcases copySubtree_cases work tree root keep c with hlt | ⟨id, hid, rfl⟩ | hge
  · rw [parent, node_copySubtree_of_lt tree root keep hlt] at hc
    have hmem : c ∈ work.children p := hl.mem_down.2 hc
    have hp : p < work.next := by
      by_contra hp
      rw [children, node_of_next_le (Nat.le_of_not_lt hp)] at hmem
      cases hmem
    rw [children, node_copySubtree_of_lt tree root keep hp]
    exact hmem
  · rw [parent, node_copySubtree work keep hid] at hc
    by_cases hroot : id = root
    · simp [hroot] at hc
    · rcases hid.eq_or_step with h | ⟨q, hq, hwithin⟩
      · exact absurd h hroot
      · simp only [hroot, ↓reduceIte, hq, Option.map_some, Option.some.injEq] at hc
        rw [← hc, children, node_copySubtree work keep hwithin]
        exact List.mem_map_of_mem (tree.mem_children.2 hq)
  · rw [parent, node_of_next_le hge] at hc
    cases hc

/-- The copies of a subtree form a forest beside the work tree. -/
theorem linked_copySubtree (tree : Tree) (root : Nat) (keep : Bool) (hl : work.Linked) :
    (work.copySubtree tree root keep).Linked := by
  refine ⟨fun {c p} => ⟨parent_of_mem_children_copySubtree tree root keep hl,
    mem_children_copySubtree_of_parent tree root keep hl⟩, fun p => ?_⟩
  rcases copySubtree_cases work tree root keep p with hp | ⟨id, hid, rfl⟩ | hp
  · rw [children, node_copySubtree_of_lt tree root keep hp]
    exact hl.nodup_down p
  · rw [children, node_copySubtree work keep hid]
    refine (tree.nodup_children id).map_on fun a ha b _ h => ?_
    exact copyNumber_inj (Leads.step (tree.mem_children.1 ha) hid) h
  · rw [children, node_of_next_le hp]
    exact List.nodup_nil

end Copies

end Reshape.WorkTree
