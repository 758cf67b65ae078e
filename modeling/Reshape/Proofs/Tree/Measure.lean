import Mathlib
import Reshape.Proofs.Tree.Alike

/-! # What the measures of a tree say

Heights shrink on the way down, so a node of a subtree that is as tall as the subtree is its top.
The size of a subtree is the number of its nodes.  Subtrees of two trees that are found to be
isomorphic are alike: digests and sizes tell only subtrees apart that differ anyway, and the
comparison node by node misses nothing. -/

namespace Reshape

/-- What has been compared node by node with success is alike. -/
theorem Tree.alike_of_sameFrom {source target : Tree} {fuel : Nat} {as bs : List Nat}
    (hlength : as.length = bs.length)
    (h : sameFrom true source target fuel (as.zip bs) = true) :
    List.Forall₂ (source.Alike target) as bs := by
  induction fuel generalizing as bs with
  | zero =>
    rcases as with - | ⟨a, as⟩ <;> rcases bs with - | ⟨b, bs⟩
    · exact .nil
    · cases hlength
    · cases hlength
    · cases h
  | succ fuel ih =>
    rcases as with - | ⟨a, as⟩ <;> rcases bs with - | ⟨b, bs⟩
    · exact .nil
    · cases hlength
    · cases hlength
    · simp only [List.zip_cons_cons, sameFrom, sameNode, Bool.not_true, Bool.false_or,
        Bool.and_eq_true, beq_iff_eq] at h
      obtain ⟨⟨⟨hkind, hlabel⟩, hchildren⟩, hrest⟩ := h
      rw [← List.zip_append hchildren] at hrest
      have hall := ih (by simpa [hchildren] using hlength) hrest
      -- The children come first; what is left are the pairs that were open before.
      rw [List.forall₂_iff_zip, List.zip_append hchildren] at hall
      refine .cons (alike_iff.2 ⟨hkind, hlabel, List.forall₂_iff_zip.2 ⟨hchildren, ?_⟩⟩)
        (List.forall₂_iff_zip.2 ⟨Nat.succ.inj hlength, ?_⟩)
      · exact fun hp => hall.2 (List.mem_append_left _ hp)
      · exact fun hp => hall.2 (List.mem_append_right _ hp)

theorem Tree.alike_of_sameSubtree {source target : Tree} {a b : Nat}
    (h : sameSubtree true source a target b = true) : source.Alike target a b := by
  have hall : List.Forall₂ (source.Alike target) [a] [b] := alike_of_sameFrom rfl h
  exact (List.forall₂_cons.1 hall).1

/-- Every node has a measure. -/
theorem Tree.size_foldUp {β : Type} (tree : Tree) (blank : β) (f : Nat → List β → β) :
    (tree.foldUp blank f).size = tree.size := by
  show (tree.ids.foldr (tree.foldStep blank f) (Array.replicate tree.size blank)).size = tree.size
  rw [size_foldr_foldStep, Array.size_replicate]

/-- The size of a subtree is the number of nodes that its walks meet. -/
theorem Tree.getD_sizes (tree : Tree) {id : Nat} (h : id < tree.size) :
    tree.sizes.getD id 0 = (tree.preorder id).length := by
  induction hn : tree.size - id using Nat.strongRecOn generalizing id with
  | ind n ih =>
    have hbelow : (tree.children id).map (tree.sizes.getD · 0) =
        (tree.children id).map fun c => (tree.preorder c).length := by
      refine List.map_congr_left fun c hc => ?_
      have hlt := tree.lt_of_mem_children hc
      have hsize := tree.lt_size_of_mem_children hc
      exact ih (tree.size - c) (by omega) hsize rfl
    calc tree.sizes.getD id 0
      _ = ((tree.children id).map (tree.sizes.getD · 0)).foldl (· + ·) 0 + 1 :=
          tree.getD_foldUp 0 (fun _ below => below.foldl (· + ·) 0 + 1) h
      _ = (tree.preorder id).length := by
          rw [hbelow, ← List.sum_eq_foldl, preorder_eq_cons, List.length_cons, List.length_flatMap]

namespace Measured

variable {digest : Digest} {source target measured : Measured digest} {a b c x : Nat}

/-- Subtrees that are found to be isomorphic are alike. -/
theorem alike_of_isomorphic (h : source.isomorphic a target b = true) :
    source.tree.Alike target.tree a b := by
  simp only [isomorphic, Bool.and_eq_true] at h
  exact Tree.alike_of_sameSubtree h.2

/-! ### Heights -/

/-- Only nodes have a height. -/
theorem lt_size_of_height_pos (h : 0 < measured.height a) : a < measured.tree.size := by
  by_contra hge
  have hsize : measured.heights.size = measured.tree.size := by
    rw [measured.heights_eq, Tree.heights, Tree.size_foldUp]
  rw [height, Array.getD_eq_getD_getElem?, Array.getElem?_eq_none (by omega)] at h
  exact Nat.lt_irrefl 0 h

theorem height_eq (h : a < measured.tree.size) :
    measured.height a = ((measured.tree.children a).map measured.height).foldl max 0 + 1 := by
  have heights : measured.height = fun id => measured.tree.heights.getD id 0 := by
    funext id
    rw [height, measured.heights_eq]
  rw [heights]
  exact Tree.getD_foldUp _ _ _ h

/-- Children are less tall than their parents. -/
theorem height_lt_of_parent (h : measured.tree.parent c = some a) :
    measured.height c < measured.height a := by
  have hsize := measured.tree.lt_size_of_parent h
  have hlt := measured.tree.lt_of_parent h
  have hmem : measured.height c ∈ (measured.tree.children a).map measured.height :=
    List.mem_map_of_mem (measured.tree.mem_children.2 h)
  have hle : measured.height c ≤ ((measured.tree.children a).map measured.height).foldl max 0 := by
    rw [List.foldl_max]
    exact Nat.le_trans (List.le_max?_getD_of_mem hmem) (Nat.le_max_right ..)
  rw [height_eq (Nat.lt_trans hlt hsize)]
  omega

theorem height_le_of_within (h : measured.tree.Within a x) :
    measured.height x ≤ measured.height a := by
  induction h with
  | refl => exact Nat.le_refl _
  | tail _ hp ih => exact Nat.le_trans ih (Nat.le_of_lt (height_lt_of_parent hp))

/-- A node of a subtree that is no less tall than the subtree is its top. -/
theorem eq_of_within_of_height_le (h : measured.tree.Within a x)
    (hheight : measured.height a ≤ measured.height x) : x = a := by
  rcases h.eq_or_step with rfl | ⟨p, hp, h⟩
  · rfl
  · have hlt := height_lt_of_parent hp
    have hle := height_le_of_within h
    omega

end Measured

end Reshape
