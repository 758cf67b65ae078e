import Mathlib
import Reshape.Proofs.Tree

/-! # Level order

The levels of a list of ordered trees begin with the tops of the trees; what follows are the levels
of all that stands right below the tops.  A walk that puts the children of a node at the end of its
queue therefore finishes one level before it starts the next: at every moment the queue holds what
is left of one level, and then what has been collected of the next. -/

namespace Reshape

namespace Rose

variable {α : Type}

theorem joinLevels_nil (levels : List (List α)) : joinLevels levels [] = levels := by
  cases levels <;> rfl

theorem joinLevels_assoc (a b c : List (List α)) :
    joinLevels (joinLevels a b) c = joinLevels a (joinLevels b c) := by
  induction a generalizing b c with
  | nil => rfl
  | cons level a ih =>
    cases b with
    | nil => rw [joinLevels_nil, joinLevels]
    | cons level' b =>
      cases c with
      | nil => rw [joinLevels_nil, joinLevels_nil]
      | cons level'' c => simp only [joinLevels, ih, List.append_assoc]

theorem levelsAll_append (roses more : List (Rose α)) :
    levelsAll (roses ++ more) = joinLevels (levelsAll roses) (levelsAll more) := by
  induction roses with
  | nil => rfl
  | cons rose roses ih => rw [List.cons_append, levelsAll, ih, levelsAll, joinLevels_assoc]

/-- The first level consists of the tops, and the others are the levels of what stands right
below. -/
theorem levelsAll_cons (rose : Rose α) (roses : List (Rose α)) :
    levelsAll (rose :: roses) =
      (rose :: roses).map value :: levelsAll ((rose :: roses).flatMap children) := by
  induction roses generalizing rose with
  | nil =>
    cases rose with
    | node value below => simp [levelsAll, levels, joinLevels_nil, children, Rose.value]
  | cons next roses ih =>
    cases rose with
    | node value below =>
      rw [levelsAll, ih next, levels, joinLevels, ← levelsAll_append]
      rfl

theorem flatten_levelsAll (roses : List (Rose α)) :
    (levelsAll roses).flatten =
      roses.map value ++ (levelsAll (roses.flatMap children)).flatten := by
  cases roses with
  | nil => rfl
  | cons rose roses => rw [levelsAll_cons, List.flatten_cons]

theorem flatten_joinLevels_perm (a b : List (List α)) :
    (joinLevels a b).flatten.Perm (a.flatten ++ b.flatten) := by
  induction a generalizing b with
  | nil => exact .refl _
  | cons level a ih =>
    cases b with
    | nil => rw [joinLevels_nil, List.flatten_nil, List.append_nil]
    | cons level' b =>
      rw [joinLevels, List.flatten_cons, List.flatten_cons, List.flatten_cons, List.append_assoc,
        List.append_assoc]
      refine ((ih b).append_left level').trans ?_ |>.append_left level
      rw [← List.append_assoc, ← List.append_assoc]
      exact List.perm_append_comm.append_right _

mutual

/-- Level order lists the values of a tree in another order than preorder. -/
theorem levelOrder_perm : (rose : Rose α) → rose.levelOrder.Perm rose.preorder
  | .node value below => by
    rw [levelOrder, levels, preorder, List.flatten_cons]
    exact (levelsAll_perm below).cons value

theorem levelsAll_perm : (roses : List (Rose α)) →
    (levelsAll roses).flatten.Perm (preorderAll roses)
  | [] => .refl _
  | rose :: roses => by
    rw [levelsAll, preorderAll]
    exact (flatten_joinLevels_perm _ _).trans ((levelOrder_perm rose).append (levelsAll_perm roses))

end

end Rose

namespace Tree

variable (tree : Tree)

/-- From a queue that holds what is left of one level and then what has been collected of the next,
the walk lists the rest of the level and then the levels below it. -/
theorem breadthFirstFrom_eq (fuel : Nat) (level next : List (Rose Nat))
    (hall : ∀ rose ∈ level ++ next, rose.Follows tree.children)
    (hfuel : ((level ++ next).map fun rose => rose.preorder.length).sum ≤ fuel) :
    tree.breadthFirstFrom fuel ((level ++ next).map Rose.value) =
      level.map Rose.value ++ (Rose.levelsAll (next ++ level.flatMap Rose.children)).flatten := by
  induction fuel generalizing level next with
  | zero =>
    have hnil : level ++ next = [] := by
      by_contra hne
      obtain ⟨rose, rest, hcons⟩ := List.exists_cons_of_ne_nil hne
      have hpos := List.length_pos_of_mem rose.value_mem_preorder
      rw [hcons, List.map_cons, List.sum_cons] at hfuel
      omega
    obtain ⟨rfl, rfl⟩ := List.append_eq_nil_iff.1 hnil
    rfl
  | succ fuel ih =>
    -- While the level lasts, its first node is visited.
    have visit : ∀ (rose : Rose Nat) (level next : List (Rose Nat)),
        (∀ r ∈ rose :: level ++ next, r.Follows tree.children) →
        ((rose :: level ++ next).map fun rose => rose.preorder.length).sum ≤ fuel + 1 →
        tree.breadthFirstFrom (fuel + 1) ((rose :: level ++ next).map Rose.value) =
          (rose :: level).map Rose.value ++
            (Rose.levelsAll (next ++ (rose :: level).flatMap Rose.children)).flatten := by
      rintro ⟨value, below⟩ level next hall hfuel
      obtain ⟨hvalues, hbelow⟩ := hall _ (List.mem_cons_self ..)
      have hqueue : ∀ rose ∈ level ++ (next ++ below), rose.Follows tree.children := by
        intro rose hrose
        rw [← List.append_assoc] at hrose
        rcases List.mem_append.1 hrose with hrose | hrose
        · exact hall rose (List.mem_cons_of_mem _ hrose)
        · exact hbelow rose hrose
      simp only [List.cons_append, List.map_cons, List.sum_cons, Rose.preorder_node,
        List.length_cons, List.length_flatMap, List.map_append, List.sum_append] at hfuel
      rw [List.cons_append, List.map_cons, Rose.value_node, breadthFirstFrom, ← hvalues,
        ← List.map_append, List.append_assoc, ih level (next ++ below) hqueue]
      · simp [Rose.children]
      · simp only [List.map_append, List.sum_append]
        omega
    rcases level with - | ⟨rose, level⟩
    · -- The level is over, and what has been collected is the next one.
      rcases next with - | ⟨rose, next⟩
      · rfl
      · have hnext := visit rose next [] (by simpa using hall) (by simpa using hfuel)
        rw [List.append_nil, List.nil_append] at hnext
        rw [List.nil_append, hnext, List.map_nil, List.nil_append, List.flatMap_nil,
          List.append_nil, Rose.flatten_levelsAll (rose :: next)]
    · exact visit rose level next hall hfuel

/-- The breadth-first walk lists the subtree level by level. -/
theorem breadthFirst_eq (id : Nat) : tree.breadthFirst id = (tree.subtree id).levelOrder := by
  have hwalk := tree.breadthFirstFrom_eq (tree.size + 1) [] [tree.subtree id]
    (by simpa using tree.subtree_follows id) (by simpa using tree.length_preorder_subtree_le id)
  simpa [breadthFirst, Rose.levelsAll, Rose.joinLevels_nil, Rose.levelOrder] using hwalk

theorem breadthFirst_perm_preorder (root : Nat) :
    (tree.breadthFirst root).Perm (tree.preorder root) := by
  rw [preorder_eq, breadthFirst_eq]
  exact (tree.subtree root).levelOrder_perm

end Tree

end Reshape
