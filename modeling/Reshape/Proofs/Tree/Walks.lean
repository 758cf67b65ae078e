import Mathlib
import Reshape.Proofs.Tree.Level
import Reshape.Proofs.Tree.Measure

/-! # Walks and measures agree with the tree

A tree is told by the parents of its nodes.  Adding the nodes one by one and entering each among the
children of its parent collects the same children.  The walks down, the walk up and the measures
each have a loop of their own; what they list and count are the ordered trees that the children
span, and the ways up that the parents give, also where the numbers do not follow the preorder and
where nodes are not below the root. -/

namespace Reshape

/-! ### Adding nodes one by one -/

/-- A tree under construction: the nodes so far, and for each of them its children so far. -/
structure Growing where
  nodes : Array Node := #[]
  children : Array (List Nat) := #[]

namespace Growing

/-- Add a node, and enter it among the children of its parent. -/
def add (growing : Growing) (node : Node) : Growing where
  nodes := growing.nodes.push node
  children :=
    match node.parent with
    | none => growing.children.push []
    | some parent => (growing.children.push []).modify parent (· ++ [growing.nodes.size])

/-- Add nodes from left to right. -/
def addAll (nodes : List Node) : Growing :=
  nodes.foldl add {}

theorem addAll_concat (nodes : List Node) (node : Node) :
    addAll (nodes ++ [node]) = (addAll nodes).add node := by
  rw [addAll, List.foldl_append, List.foldl_cons, List.foldl_nil, addAll]

theorem nodes_addAll (nodes : List Node) : (addAll nodes).nodes = nodes.toArray := by
  induction nodes using List.reverseRecOn with
  | nil => rfl
  | append_singleton nodes node ih => rw [addAll_concat, add, ih, List.push_toArray]

/-- The children that a node has once another node is there. -/
theorem childrenIn_push (nodes : Array Node) (node : Node) (id : Nat) :
    Node.childrenIn (nodes.push node) id =
      Node.childrenIn nodes id ++ if node.parent = some id then [nodes.size] else [] := by
  have hold : ∀ child ∈ List.range nodes.size,
      Node.parentIn (nodes.push node) child = Node.parentIn nodes child := by
    intro child hchild
    have hlt : child < nodes.size := List.mem_range.1 hchild
    rw [Node.parentIn, Node.parentIn, Array.getElem?_push, if_neg hlt.ne]
  have hnew : Node.parentIn (nodes.push node) nodes.size = node.parent := by
    rw [Node.parentIn, Array.getElem?_push, if_pos rfl, Option.bind_some]
  rw [Node.childrenIn, Node.childrenIn, Array.size_push, List.range_succ, List.filter_append]
  congr 1
  · exact List.filter_congr fun child hchild => by rw [hold child hchild]
  · rw [List.filter_singleton, hnew]
    simp

theorem size_children_addAll (nodes : List Node) : (addAll nodes).children.size = nodes.length := by
  induction nodes using List.reverseRecOn with
  | nil => rfl
  | append_singleton nodes node ih =>
    rw [addAll_concat, add]
    cases node.parent <;> simp [ih]

/-- Where parents come first, the children are collected while the nodes are added. -/
theorem getElem?_children_addAll {nodes : List Node}
    (h : ∀ id parent, Node.parentIn nodes.toArray id = some parent → parent < id) {id : Nat}
    (hid : id < nodes.length) :
    (addAll nodes).children[id]? = some (Node.childrenIn nodes.toArray id) := by
  induction nodes using List.reverseRecOn generalizing id with
  | nil => cases hid
  | append_singleton nodes node ih =>
    have hsize := size_children_addAll nodes
    have hold : ∀ child parent, Node.parentIn nodes.toArray child = some parent →
        parent < child := by
      intro child parent hparent
      refine h child parent ?_
      have hlt : child < nodes.length := by
        obtain ⟨_, hget, -⟩ := Option.bind_eq_some_iff.1 hparent
        simpa using (Array.getElem?_eq_some_iff.1 hget).1
      rw [← hparent, Node.parentIn, Node.parentIn, ← List.push_toArray, Array.getElem?_push,
        if_neg (by simpa using hlt.ne)]
    -- The new node has no children yet, since children come later.
    have hpush : ((addAll nodes).children.push [])[id]? =
        some (Node.childrenIn nodes.toArray id) := by
      rw [Array.getElem?_push, hsize]
      split
      · rename_i heq
        refine congrArg some (Eq.symm (List.filter_eq_nil_iff.2 fun child hchild hparent => ?_))
        have hlt := hold child id (by simpa using hparent)
        have hchild : child < nodes.length := by simpa using hchild
        omega
      · rw [List.length_append, List.length_singleton] at hid
        exact ih hold (by omega)
    rw [addAll_concat, add, nodes_addAll, ← List.push_toArray, childrenIn_push]
    cases hparent : node.parent with
    | none => simpa using hpush
    | some parent =>
      rw [Array.getElem?_modify, hpush]
      by_cases heq : parent = id <;> simp [heq]

end Growing

namespace Tree

variable (tree : Tree) {root id : Nat}

/-- Adding the nodes of a tree one by one collects its children. -/
theorem getElem?_children_addAll (hid : id < tree.size) :
    (Growing.addAll tree.nodes.toList).children[id]? = some (tree.children id) := by
  rw [Growing.getElem?_children_addAll (by simpa using tree.parent_lt) (by simpa [size] using hid),
    children_eq]
  rfl

end Tree

/-! ### The walk down from the root -/

namespace Descent

variable {tree : Tree} {descent : Descent} {id : Nat}

/-- A node is noted with as many steps as it has ancestors. -/
def Notes (tree : Tree) (descent : Descent) (id : Nat) : Prop :=
  descent.depths.getD id 0 = (tree.ancestors id).length

theorem size_foldr_setIfInBounds (children : List Nat) (depths : Array Nat) (id : Nat) :
    (children.foldr (fun child depths => depths.setIfInBounds child (depths.getD id 0 + 1))
      depths).size = depths.size := by
  induction children with
  | nil => rfl
  | cons child children ih => rw [List.foldr_cons, Array.size_setIfInBounds, ih]

theorem size_depths_visit (tree : Tree) (descent : Descent) (id : Nat) :
    (descent.visit tree id).depths.size = descent.depths.size :=
  size_foldr_setIfInBounds ..

theorem getD_setIfInBounds {table : Array Nat} {place : Nat} (h : place < table.size)
    (value id : Nat) :
    (table.setIfInBounds place value).getD id 0 =
      if place = id then value else table.getD id 0 := by
  rw [Array.getD_eq_getD_getElem?, Array.getElem?_setIfInBounds]
  split
  · simp_all
  · rw [Array.getD_eq_getD_getElem?]

/-- Visiting a node that is noted notes its children, and what was noted before stays so. -/
theorem Notes.visit {v : Nat} (hsize : descent.depths.size = tree.size)
    (hv : descent.Notes tree v) (h : descent.Notes tree id ∨ id ∈ tree.children v) :
    (descent.visit tree v).Notes tree id := by
  have hall : ∀ children : List Nat, (∀ child ∈ children, child ∈ tree.children v) → ∀ id,
      (descent.Notes tree id ∨ id ∈ children) →
      (children.foldr (fun child depths => depths.setIfInBounds child (depths.getD v 0 + 1))
        descent.depths).getD id 0 = (tree.ancestors id).length := by
    intro children
    induction children with
    | nil => exact fun _ id h => h.resolve_right List.not_mem_nil
    | cons child children ih =>
      intro hchildren id h
      have hbelow := ih fun c hc => hchildren c (List.mem_cons_of_mem _ hc)
      have hchild := tree.mem_children.1 (hchildren child List.mem_cons_self)
      rw [List.foldr_cons, hbelow v (Or.inl hv), getD_setIfInBounds]
      · split
        · rename_i heq
          rw [← heq, tree.ancestors_of_parent hchild, List.length_cons]
        · rename_i hne
          exact hbelow id (h.imp_right fun hmem =>
            (List.mem_cons.1 hmem).resolve_left (Ne.symm hne))
      · rw [size_foldr_setIfInBounds, hsize]
        exact tree.lt_size_of_parent hchild
  exact hall _ (fun _ hc => hc) id h

/-- On a walk from nodes that are noted, what was noted stays so, and all that is visited is
noted. -/
theorem Notes.run {fuel : Nat} {stack : List Nat} (hsize : descent.depths.size = tree.size)
    (hstack : ∀ v ∈ stack, descent.Notes tree v)
    (h : descent.Notes tree id ∨ id ∈ tree.preorderFrom fuel stack) :
    (descent.run tree fuel stack).Notes tree id := by
  induction fuel generalizing stack descent with
  | zero => exact h.resolve_right List.not_mem_nil
  | succ fuel ih =>
    rcases stack with - | ⟨v, rest⟩
    · exact h.resolve_right List.not_mem_nil
    · obtain ⟨hv, hrest⟩ := List.forall_mem_cons.1 hstack
      refine ih ((size_depths_visit tree descent v).trans hsize) (fun x hx => ?_) ?_
      · rcases List.mem_append.1 hx with hx | hx
        · exact hv.visit hsize (Or.inr hx)
        · exact hv.visit hsize (Or.inl (hrest x hx))
      · rcases h with h | h
        · exact Or.inl (hv.visit hsize (Or.inl h))
        · rcases List.mem_cons.1 h with rfl | h
          · exact Or.inl (hv.visit hsize (Or.inl hv))
          · exact Or.inr h

/-- The walk visits the nodes in preorder. -/
theorem run_eq_foldl (tree : Tree) (fuel : Nat) (stack : List Nat) (descent : Descent) :
    descent.run tree fuel stack = (tree.preorderFrom fuel stack).foldl (visit tree) descent := by
  induction fuel generalizing stack descent with
  | zero => rfl
  | succ fuel ih =>
    rcases stack with - | ⟨v, rest⟩
    · rfl
    · exact ih ..

/-- The count gives every node its place. -/
theorem indices_foldl_visit (tree : Tree) (ids : List Nat) (descent : Descent) :
    (ids.foldl (visit tree) descent).indices = (ids.zipIdx descent.count).foldl
      (fun table (id, index) => table.setIfInBounds id index) descent.indices := by
  induction ids generalizing descent with
  | nil => rfl
  | cons id ids ih => rw [List.foldl_cons, ih, List.zipIdx_cons, List.foldl_cons]; rfl

end Descent

namespace Tree

variable (tree : Tree) {id : Nat}

theorem ancestors_root : tree.ancestors tree.root = [] := by
  cases hp : tree.parent tree.root with
  | none => exact tree.ancestors_of_none hp
  | some p => exact absurd (tree.lt_of_parent hp) (Nat.not_lt_zero p)

theorem getD_depths (h : tree.Within tree.root id) :
    tree.depths.getD id 0 = (tree.ancestors id).length := by
  refine Descent.Notes.run Array.size_replicate (fun v hv => ?_) (Or.inr (tree.mem_preorder.2 h))
  obtain rfl := List.mem_singleton.1 hv
  rw [Descent.Notes, ancestors_root, List.length_nil, Array.getD_eq_getD_getElem?,
    Array.getElem?_replicate]
  split <;> rfl

theorem getD_foldl_set_of_notMem {entries : List (Nat × Nat)} {table : Array Nat}
    (h : id ∉ entries.map Prod.fst) :
    (entries.foldl (fun table (id, index) => table.setIfInBounds id index) table).getD id 0 =
      table.getD id 0 := by
  induction entries generalizing table with
  | nil => rfl
  | cons entry entries ih =>
    rw [List.map_cons, List.mem_cons, not_or] at h
    rw [List.foldl_cons, ih h.2]
    simp [Array.getD_eq_getD_getElem?, Ne.symm h.1]

/-- A table in which every place is set once holds what was set. -/
theorem getD_foldl_set {entries : List (Nat × Nat)} {table : Array Nat} {index : Nat}
    (hnodup : (entries.map Prod.fst).Nodup) (hmem : (id, index) ∈ entries) (hid : id < table.size) :
    (entries.foldl (fun table (id, index) => table.setIfInBounds id index) table).getD id 0 =
      index := by
  induction entries generalizing table with
  | nil => cases hmem
  | cons entry entries ih =>
    rw [List.map_cons, List.nodup_cons] at hnodup
    rw [List.foldl_cons]
    rcases List.mem_cons.1 hmem with rfl | hmem
    · rw [getD_foldl_set_of_notMem hnodup.1]
      simp [Array.getD_eq_getD_getElem?, hid]
    · exact ih hnodup.2 hmem (by rwa [Array.size_setIfInBounds])

/-- The index of a node below the root is its place in the preorder. -/
theorem getElem?_indices (hid : id < tree.size) (h : tree.Within tree.root id) :
    (tree.preorder tree.root)[tree.indices.getD id 0]? = some id := by
  obtain ⟨index, hindex⟩ := List.mem_iff_getElem?.1 (tree.mem_preorder.2 h)
  have hentry : (id, index) ∈ (tree.preorder tree.root).zipIdx :=
    List.mem_zipIdx_iff_getElem?.2 hindex
  have hnodup : ((tree.preorder tree.root).zipIdx.map Prod.fst).Nodup := by
    rw [List.zipIdx_map_fst]
    exact tree.nodup_preorder tree.root
  have hset : tree.indices.getD id 0 = index := by
    rw [indices, descent, Descent.run_eq_foldl, Descent.indices_foldl_visit]
    exact getD_foldl_set hnodup hentry (by rwa [Array.size_replicate])
  rw [hset, hindex]

end Tree

namespace Measured

variable {digest : Digest} (measured : Measured digest) {r : Nat}

theorem height_eq_sup (h : r < measured.tree.size) :
    measured.height r = (measured.tree.children r).toFinset.sup measured.height + 1 := by
  have himage : ((measured.tree.children r).map measured.height).toFinset =
      (measured.tree.children r).toFinset.image measured.height := by
    ext height
    simp
  have hsup := List.foldr_sup_eq_sup_toFinset ((measured.tree.children r).map measured.height)
  rw [← List.foldl_eq_foldr, himage, Finset.sup_image] at hsup
  rw [height_eq h]
  exact congrArg (· + 1) hsup

/-- **Walks and measures agree with the tree.**  The children of a node are what adding the nodes
one by one collects, and they span the subtree.  The three walks down are its preorder, postorder
and level order, and each meets every node of the subtree once; the walk up meets every node above
once.  Size and height are those of the subtree, and below the root the depth is the number of
ancestors and the index the place in the preorder. -/
theorem walks_and_measures_exact (measured : Measured digest) {r : Nat}
    (hr : r < measured.tree.size) :
    let tree := measured.tree
    ((Growing.addAll tree.nodes.toList).children[r]? = some (tree.children r) ∧
      tree.subtree r = .node r ((tree.children r).map tree.subtree)) ∧
    (tree.preorder r = (tree.subtree r).preorder ∧
      tree.postorder r = (tree.subtree r).postorder ∧
      tree.breadthFirst r = (tree.subtree r).levelOrder) ∧
    (∀ walk ∈ [tree.preorder r, tree.postorder r, tree.breadthFirst r], ∀ id,
      walk.count id = if tree.Within r id then 1 else 0) ∧
    (∀ id, id ∈ tree.preorder r ↔ tree.isAncestorOrSelf r id = true) ∧
    measured.size r = (tree.preorder r).length ∧
    measured.height r = (tree.children r).toFinset.sup measured.height + 1 ∧
    (∀ id, (tree.ancestors r).count id = if id ≠ r ∧ tree.Within id r then 1 else 0) ∧
    (tree.Within tree.root r →
      measured.depth r = (tree.ancestors r).length ∧
      (tree.preorder tree.root)[measured.index r]? = some r) := by
  intro tree
  refine ⟨⟨tree.getElem?_children_addAll hr, tree.subtree_eq r⟩,
    ⟨tree.preorder_eq r, tree.postorder_eq r, tree.breadthFirst_eq r⟩, ?_, fun id => ?_, ?_,
    measured.height_eq_sup hr, fun id => ?_, fun hwithin => ⟨?_, ?_⟩⟩
  · intro walk hwalk id
    have hperm : walk.Perm (tree.preorder r) := by
      simp only [List.mem_cons, List.not_mem_nil, or_false] at hwalk
      rcases hwalk with rfl | rfl | rfl
      · exact .refl _
      · exact tree.postorder_perm_preorder r
      · exact tree.breadthFirst_perm_preorder r
    rw [hperm.count_eq, (tree.nodup_preorder r).count]
    exact if_congr tree.mem_preorder rfl rfl
  · rw [tree.mem_preorder, tree.isAncestorOrSelf_iff]
  · rw [size, measured.sizes_eq]
    exact tree.getD_sizes hr
  · rw [(tree.nodup_ancestors r).count]
    exact if_congr tree.mem_ancestors_iff rfl rfl
  · rw [depth, measured.depths_eq]
    exact tree.getD_depths hwithin
  · rw [index, measured.indices_eq]
    exact tree.getElem?_indices hr hwithin

/-- The numbers do not follow the preorder, and two nodes are not below the root. -/
theorem walks_and_measures_exact_scattered :
    let tree : Tree := .ofNodes default "" #[{ kind := "a" }, { kind := "b", parent := some 0 },
      { kind := "c", parent := some 0 }, { kind := "d" }, { kind := "e", parent := some 1 },
      { kind := "f", parent := some 3 }, { kind := "g", parent := some 4 }]
    let measured := tree.measured .standard
    4 < measured.tree.size ∧ tree.Within tree.root 4 ∧ ¬ tree.Within tree.root 5 ∧
      tree.preorder tree.root = [0, 1, 4, 6, 2] ∧ measured.size 4 = 2 ∧ measured.depth 4 = 2 ∧
      (tree.preorder tree.root)[measured.index 4]? = some 4 := by
  intro tree measured
  have hsize : 4 < measured.tree.size := by decide
  have hwithin : tree.Within tree.root 4 := by decide
  obtain ⟨-, -, -, -, hcount, -, -, hplace⟩ := walks_and_measures_exact measured hsize
  obtain ⟨hdepth, hindex⟩ := hplace hwithin
  exact ⟨hsize, hwithin, by decide, rfl, hcount, hdepth, hindex⟩

end Measured

end Reshape
