import Mathlib
import Reshape.Mapping.Subtrees
import Reshape.Proofs.Tree
import Reshape.Tree.Isomorphism

/-! # Equal subtrees

Two subtrees are alike if they have the same kinds and labels in the same shape.  Their tops then
agree in kind and label, and their children are alike one by one.  So the preorders of both subtrees
run through alike nodes, children are paired along the preorders if their parents are, and whatever
is measured bottom up from kinds and labels is the same on both sides. -/

namespace Reshape

section Zip

variable {α β : Type} {xs : List α} {ys : List β}

theorem exists_mem_zip_of_left (h : xs.length = ys.length) {x : α} (hx : x ∈ xs) :
    ∃ y, (x, y) ∈ xs.zip ys := by
  rw [← List.map_fst_zip h.le] at hx
  obtain ⟨⟨x, y⟩, hp, rfl⟩ := List.mem_map.1 hx
  exact ⟨y, hp⟩

theorem exists_mem_zip_of_right (h : xs.length = ys.length) {y : β} (hy : y ∈ ys) :
    ∃ x, (x, y) ∈ xs.zip ys := by
  rw [← List.map_snd_zip h.ge] at hy
  obtain ⟨⟨x, y⟩, hp, rfl⟩ := List.mem_map.1 hy
  exact ⟨x, hp⟩

end Zip

namespace Rose

variable {α β : Type}

theorem mapAll_eq (f : α → β) (roses : List (Rose α)) : mapAll f roses = roses.map (map f) := by
  induction roses with
  | nil => rfl
  | cons rose roses ih => rw [mapAll, ih, List.map_cons]

theorem map_node (f : α → β) (value : α) (below : List (Rose α)) :
    map f (.node value below) = .node (f value) (below.map (map f)) := by
  rw [map, mapAll_eq]

end Rose

namespace Tree

variable {source target : Tree} {a b s t x y : Nat}

/-- The kinds and labels of a subtree, in its shape. -/
def texts (tree : Tree) (id : Nat) : Rose (String × String) :=
  (tree.subtree id).map fun node => (tree.kind node, tree.label node)

theorem texts_eq (tree : Tree) (id : Nat) :
    tree.texts id = .node (tree.kind id, tree.label id) ((tree.children id).map tree.texts) := by
  rw [texts, subtree_eq, Rose.map_node, List.map_map]
  rfl

/-- Two subtrees agree in kinds, labels and shape. -/
def Alike (source target : Tree) (a b : Nat) : Prop :=
  source.texts a = target.texts b

theorem alike_iff : source.Alike target a b ↔ source.kind a = target.kind b ∧
    source.label a = target.label b ∧
    List.Forall₂ (source.Alike target) (source.children a) (target.children b) := by
  have hchildren : (source.children a).map source.texts = (target.children b).map target.texts ↔
      List.Forall₂ (source.Alike target) (source.children a) (target.children b) := by
    rw [← List.forall₂_eq_eq_eq, List.forall₂_map_left_iff, List.forall₂_map_right_iff]
    rfl
  rw [Alike, texts_eq, texts_eq, Rose.node.injEq, Prod.mk.injEq, hchildren, and_assoc]

namespace Alike

theorem kind_eq (h : source.Alike target a b) : source.kind a = target.kind b :=
  (alike_iff.1 h).1

theorem label_eq (h : source.Alike target a b) : source.label a = target.label b :=
  (alike_iff.1 h).2.1

theorem children (h : source.Alike target a b) :
    List.Forall₂ (source.Alike target) (source.children a) (target.children b) :=
  (alike_iff.1 h).2.2

theorem child (h : source.Alike target a b) {p : Nat × Nat}
    (hp : p ∈ (source.children a).zip (target.children b)) : source.Alike target p.1 p.2 :=
  (List.forall₂_iff_zip.1 h.children).2 hp

/-- Induction on alike subtrees goes from the children to their parents. -/
@[elab_as_elim]
theorem induct {motive : (a b : Nat) → source.Alike target a b → Prop}
    (step : ∀ (a b : Nat) (h : source.Alike target a b),
      (∀ (p : Nat × Nat) (hp : p ∈ (source.children a).zip (target.children b)),
        motive p.1 p.2 (h.child hp)) → motive a b h)
    {a b : Nat} (h : source.Alike target a b) : motive a b h := by
  induction hn : source.size - a using Nat.strongRecOn generalizing a b with
  | ind n ih =>
    refine step a b h fun p hp => ?_
    have hchild := (List.of_mem_zip hp).1
    have hlt := source.lt_of_mem_children hchild
    have hsize := source.lt_size_of_mem_children hchild
    exact ih (source.size - p.1) (by omega) (h.child hp) rfl

/-! ### Walking alike subtrees -/

/-- The preorders of alike subtrees run through alike nodes. -/
theorem preorder (h : source.Alike target a b) :
    List.Forall₂ (source.Alike target) (source.preorder a) (target.preorder b) := by
  induction h using induct with
  | step a b h ih =>
    rw [preorder_eq_cons, preorder_eq_cons]
    refine .cons h ?_
    have hbelow : List.Forall₂ (fun c d => List.Forall₂ (source.Alike target) (source.preorder c)
        (target.preorder d)) (source.children a) (target.children b) :=
      List.forall₂_iff_zip.2 ⟨h.children.length_eq, fun hp => ih _ hp⟩
    exact List.rel_flatMap hbelow fun _ _ hcd => hcd

theorem of_mem_subtreePairs (h : source.Alike target s t)
    (hp : (x, y) ∈ Mapping.subtreePairs source target s t) : source.Alike target x y :=
  (List.forall₂_iff_zip.1 h.preorder).2 hp

/-- The pairs along alike subtrees are those of the tops and those along the children. -/
theorem subtreePairs_eq (h : source.Alike target s t) :
    Mapping.subtreePairs source target s t = (s, t) ::
      ((source.children s).zip (target.children t)).flatMap fun p =>
        Mapping.subtreePairs source target p.1 p.2 := by
  rw [Mapping.subtreePairs, preorder_eq_cons, preorder_eq_cons, List.zip_cons_cons]
  congr 1
  have hchildren := h.children
  generalize source.children s = cs at hchildren
  generalize target.children t = ds at hchildren
  induction hchildren with
  | nil => rfl
  | @cons c d cs ds hcd _ ih =>
    rw [List.flatMap_cons, List.flatMap_cons, List.zip_append hcd.preorder.length_eq, ih,
      List.zip_cons_cons, List.flatMap_cons]
    rfl

theorem mem_subtreePairs_self (h : source.Alike target s t) :
    (s, t) ∈ Mapping.subtreePairs source target s t := by
  rw [h.subtreePairs_eq]
  exact List.mem_cons_self ..

/-- Along alike subtrees the children of paired nodes are paired in order. -/
theorem child_mem_subtreePairs (h : source.Alike target s t)
    (hp : (x, y) ∈ Mapping.subtreePairs source target s t) {q : Nat × Nat}
    (hq : q ∈ (source.children x).zip (target.children y)) :
    q ∈ Mapping.subtreePairs source target s t := by
  induction h using induct with
  | step s t h ih =>
    rw [h.subtreePairs_eq] at hp ⊢
    refine List.mem_cons_of_mem _ (List.mem_flatMap.2 ?_)
    rcases List.mem_cons.1 hp with heq | hp
    · obtain ⟨rfl, rfl⟩ := Prod.mk.inj heq
      exact ⟨q, hq, (h.child hq).mem_subtreePairs_self⟩
    · obtain ⟨r, hr, hp⟩ := List.mem_flatMap.1 hp
      exact ⟨r, hr, ih r hr hp⟩

end Alike

/-! ### Measures of alike subtrees -/

section FoldUp

variable {β : Type} (tree : Tree) (blank : β) (f : Nat → List β → β)

/-- One step of a measure that is taken bottom up. -/
def foldStep (id : Nat) (values : Array β) : Array β :=
  values.setIfInBounds id (f id ((tree.children id).map (values.getD · blank)))

theorem size_foldr_foldStep (ids : List Nat) (values : Array β) :
    (ids.foldr (tree.foldStep blank f) values).size = values.size := by
  induction ids with
  | nil => rfl
  | cons id ids ih => rw [List.foldr_cons, foldStep, Array.size_setIfInBounds, ih]

theorem getD_foldStep_of_ne {id other : Nat} (h : id ≠ other) (values : Array β) :
    (tree.foldStep blank f id values).getD other blank = values.getD other blank := by
  simp [foldStep, Array.getD_eq_getD_getElem?, h]

theorem getD_foldr_foldStep {ids : List Nat} {id : Nat} (h : id ∉ ids) (values : Array β) :
    (ids.foldr (tree.foldStep blank f) values).getD id blank = values.getD id blank := by
  induction ids with
  | nil => rfl
  | cons other ids ih =>
    rw [List.mem_cons, not_or] at h
    rw [List.foldr_cons, getD_foldStep_of_ne tree blank f (Ne.symm h.1), ih h.2]

/-- The measure of a node is made from those of its children. -/
theorem getD_foldUp {id : Nat} (h : id < tree.size) : (tree.foldUp blank f).getD id blank =
    f id ((tree.children id).map ((tree.foldUp blank f).getD · blank)) := by
  obtain ⟨left, right, hsplit⟩ := List.append_of_mem (List.mem_range.2 h)
  have hleft : ∀ other ∈ left, other < id := by
    have hascending := hsplit ▸ List.pairwise_lt_range
    intro other hother
    exact (List.pairwise_append.1 hascending).2.2 other hother id (List.mem_cons_self ..)
  -- `values` are the measures right before the turn of `id`; those of its children are final
  have hfold : tree.foldUp blank f = left.foldr (tree.foldStep blank f) (tree.foldStep blank f id
      (right.foldr (tree.foldStep blank f) (Array.replicate tree.size blank))) := by
    show tree.ids.foldr (tree.foldStep blank f) _ = _
    rw [ids, hsplit, List.foldr_append, List.foldr_cons]
  have hsize := tree.size_foldr_foldStep blank f right (Array.replicate tree.size blank)
  generalize right.foldr (tree.foldStep blank f) (Array.replicate tree.size blank) = values
    at hfold hsize
  rw [Array.size_replicate] at hsize
  have hself : (tree.foldUp blank f).getD id blank =
      f id ((tree.children id).map (values.getD · blank)) := by
    rw [hfold, getD_foldr_foldStep tree blank f fun hmem => Nat.lt_irrefl _ (hleft id hmem)]
    simp [foldStep, Array.getD_eq_getD_getElem?, hsize, h]
  have hchild : ∀ c ∈ tree.children id, (tree.foldUp blank f).getD c blank =
      values.getD c blank := by
    intro c hc
    have hlt := tree.lt_of_mem_children hc
    rw [hfold, getD_foldr_foldStep tree blank f fun hmem => Nat.lt_asymm hlt (hleft c hmem),
      getD_foldStep_of_ne tree blank f (Nat.ne_of_lt hlt)]
  rw [hself, List.map_congr_left hchild]

end FoldUp

namespace Alike

/-- What is measured from kinds and labels is the same for alike subtrees. -/
theorem getD_foldUp_eq {β : Type} {blank : β} {f g : Nat → List β → β}
    (hfg : ∀ a b below, source.kind a = target.kind b → source.label a = target.label b →
      f a below = g b below)
    (h : source.Alike target a b) (ha : a < source.size) (hb : b < target.size) :
    (source.foldUp blank f).getD a blank = (target.foldUp blank g).getD b blank := by
  induction h using induct with
  | step a b h ih =>
    have hbelow : (source.children a).map ((source.foldUp blank f).getD · blank) =
        (target.children b).map ((target.foldUp blank g).getD · blank) := by
      rw [← List.forall₂_eq_eq_eq, List.forall₂_map_left_iff, List.forall₂_map_right_iff]
      refine List.forall₂_iff_zip.2 ⟨h.children.length_eq, fun {c d} hp => ?_⟩
      obtain ⟨hc, hd⟩ := List.of_mem_zip hp
      exact ih (c, d) hp (source.lt_size_of_mem_children hc) (target.lt_size_of_mem_children hd)
    rw [getD_foldUp source blank f ha, getD_foldUp target blank g hb, hbelow,
      hfg a b _ h.kind_eq h.label_eq]

/-- Alike subtrees are compared node by node with success. -/
theorem sameFrom {withLabels : Bool} {fuel : Nat} {as bs : List Nat}
    (h : List.Forall₂ (source.Alike target) as bs)
    (hfuel : (as.map fun a => (source.preorder a).length).sum ≤ fuel) :
    Tree.sameFrom withLabels source target fuel (as.zip bs) = true := by
  induction fuel generalizing as bs with
  | zero =>
    cases h with
    | nil => rfl
    | @cons a b as bs hab hrest =>
      rw [List.map_cons, List.sum_cons, preorder_eq_cons, List.length_cons] at hfuel
      omega
  | succ fuel ih =>
    cases h with
    | nil => rfl
    | @cons a b as bs hab hrest =>
      have hlength := hab.children.length_eq
      rw [List.zip_cons_cons, Tree.sameFrom, ← List.zip_append hlength,
        ih (List.rel_append hab.children hrest)]
      · simp [sameNode, hab.kind_eq, hab.label_eq, hlength]
      · rw [List.map_cons, List.sum_cons, preorder_eq_cons, List.length_cons,
          List.length_flatMap] at hfuel
        rw [List.map_append, List.sum_append]
        omega

theorem sameSubtree {withLabels : Bool} (h : source.Alike target a b) :
    Tree.sameSubtree withLabels source a target b = true := by
  refine sameFrom (.cons h .nil) ?_
  have hle := source.length_preorder_subtree_le a
  rw [← preorder_eq] at hle
  simpa using hle

end Alike

end Tree

namespace Measured

variable {digest : Digest} {source target : Measured digest} {a b : Nat}

theorem height_eq_of_alike (h : source.tree.Alike target.tree a b) (ha : a < source.tree.size)
    (hb : b < target.tree.size) : source.height a = target.height b := by
  rw [height, height, source.heights_eq, target.heights_eq]
  exact h.getD_foldUp_eq (fun _ _ _ _ _ => rfl) ha hb

theorem height_pos (measured : Measured digest) (h : a < measured.tree.size) :
    0 < measured.height a := by
  rw [height, measured.heights_eq, Tree.heights, Tree.getD_foldUp _ _ _ h]
  exact Nat.succ_pos _

theorem digest_eq_of_alike (h : source.tree.Alike target.tree a b) (ha : a < source.tree.size)
    (hb : b < target.tree.size) : source.digests.getD a 0 = target.digests.getD b 0 := by
  rw [source.digests_eq, target.digests_eq]
  exact h.getD_foldUp_eq (fun _ _ _ hkind hlabel => by rw [hkind, hlabel]) ha hb

/-- Alike subtrees are found to be isomorphic. -/
theorem isomorphic_of_alike (h : source.tree.Alike target.tree a b) (ha : a < source.tree.size)
    (hb : b < target.tree.size) : source.isomorphic a target b = true := by
  have hsize : source.size a = target.size b := by
    rw [size, size, source.sizes_eq, target.sizes_eq]
    exact h.getD_foldUp_eq (fun _ _ _ _ _ => rfl) ha hb
  rw [isomorphic, digest_eq_of_alike h ha hb, hsize, h.sameSubtree]
  simp

end Measured

end Reshape
