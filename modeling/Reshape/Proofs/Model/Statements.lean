import Mathlib
import Reshape.Model.Statement
import Reshape.Proofs.Tree

/-! # The statements of a body

Which statements a body lists, and how deep each of them is, can be told from the way up: from the
nodes between a statement and the body.  A statement is listed unless an operation or a class is
among them, and it is as deep as there are statements among them.  Going down from the body to a
child of a node adds that node to the way up, so the recursion that lists the statements has the
right depth at hand, and so has a stack of nodes that wait with their depths. -/

namespace Reshape

namespace Tree

variable {tree : Tree} {top id child a : Nat}

/-- A node lies on the way up from another one to a third, strictly between the two. -/
def Between (tree : Tree) (top id a : Nat) : Prop :=
  (a ≠ top ∧ tree.Within top a) ∧ a ≠ id ∧ tree.Within a id

instance (tree : Tree) (top id a : Nat) : Decidable (tree.Between top id a) :=
  inferInstanceAs (Decidable ((a ≠ top ∧ tree.Within top a) ∧ a ≠ id ∧ tree.Within a id))

/-- The nodes between a node and one above it, from the nearest one up. -/
def between (tree : Tree) (top id : Nat) : List Nat :=
  (tree.ancestors id).filter fun a => a ≠ top ∧ tree.Within top a

theorem mem_between : a ∈ tree.between top id ↔ tree.Between top id a := by
  rw [between, List.mem_filter, mem_ancestors_iff, decide_eq_true_eq, and_comm, Between]

theorem nodup_between (top id : Nat) : (tree.between top id).Nodup :=
  (tree.nodup_ancestors id).filter _

/-- Going down one step adds a node to the way up. -/
theorem between_of_parent (h : tree.parent child = some id) (hid : id ≠ top ∧ tree.Within top id) :
    tree.between top child = id :: tree.between top id := by
  rw [between, tree.ancestors_of_parent h, List.filter_cons, if_pos (decide_eq_true hid), between]

/-- Nothing lies between a node and its children. -/
theorem between_child (h : tree.parent child = some top) : tree.between top child = [] := by
  refine List.eq_nil_iff_forall_not_mem.2 fun a ha => ?_
  obtain ⟨⟨hne, htop⟩, hchild, hwithin⟩ := mem_between.1 ha
  obtain ⟨p, hp, hwithin⟩ := hwithin.eq_or_step.resolve_left (Ne.symm hchild)
  obtain rfl : p = top := Option.some.inj (hp.symm.trans h)
  have hle := tree.le_of_within hwithin
  have hle' := tree.le_of_within htop
  omega

theorem descendants_eq (tree : Tree) (id : Nat) :
    tree.descendants id = (tree.children id).flatMap tree.preorder := by
  rw [descendants, preorder_eq_cons, List.tail_cons]

theorem mem_descendants : a ∈ tree.descendants id ↔ a ≠ id ∧ tree.Within id a := by
  have hnodup := tree.nodup_preorder id
  rw [← mem_preorder, descendants_eq, preorder_eq_cons, List.mem_cons]
  rw [preorder_eq_cons, List.nodup_cons] at hnodup
  constructor
  · intro ha
    exact ⟨fun heq => hnodup.1 (heq ▸ ha), Or.inr ha⟩
  · rintro ⟨hne, ha⟩
    exact ha.resolve_left hne

end Tree

theorem Category.isStatement_iff (c : Category) :
    c.isStatement = true ↔ c = .statement ∨ c = .variableDeclaration := by
  cases c <;> decide

namespace Statement

variable {tree : Tree} {body id : Nat}

/-- No operation and no class lies between a statement and the body. -/
def isListed (tree : Tree) (body id : Nat) : Bool :=
  (tree.category id).isStatement && (tree.between body id).all fun a => !hides tree a

/-- The number of statements between a node and the body. -/
def nesting (tree : Tree) (body id : Nat) : Nat :=
  (tree.between body id).countP fun a => (tree.category a).isStatement

theorem withinAll_eq (depth : Nat) (roses : List (Rose Nat)) :
    withinAll tree depth roses = roses.flatMap (within tree depth) := by
  induction roses with
  | nil => rfl
  | cons rose roses ih => rw [withinAll, ih, List.flatMap_cons]

theorem isStatement_of_hides (h : hides tree id = true) :
    (tree.category id).isStatement = false := by
  simp only [hides, Bool.or_eq_true, beq_iff_eq] at h
  rcases h with h | h <;> rw [h] <;> rfl

/-- Nothing is listed from a hidden part of the body. -/
theorem filter_isListed_of_hides (hid : id ≠ body ∧ tree.Within body id)
    (h : hides tree id = true) :
    (tree.preorder id).filter (isListed tree body) = [] := by
  refine List.filter_eq_nil_iff.2 fun a ha hlisted => ?_
  simp only [isListed, Bool.and_eq_true, List.all_eq_true, Bool.not_eq_true'] at hlisted
  obtain ⟨hstatement, hshown⟩ := hlisted
  by_cases heq : a = id
  · subst heq
    rw [isStatement_of_hides h] at hstatement
    cases hstatement
  · have hmem : id ∈ tree.between body a :=
      Tree.mem_between.2 ⟨hid, Ne.symm heq, tree.mem_preorder.1 ha⟩
    rw [hshown id hmem] at h
    cases h

theorem nesting_of_parent {child : Nat} (h : tree.parent child = some id)
    (hid : id ≠ body ∧ tree.Within body id) : nesting tree body child =
      nesting tree body id + if (tree.category id).isStatement then 1 else 0 := by
  rw [nesting, Tree.between_of_parent h hid, List.countP_cons, nesting]

/-- A statement is listed before what is below it, which is one step deeper. -/
theorem within_node (depth id : Nat) (below : List (Rose Nat)) (h : hides tree id = false) :
    within tree depth (.node id below) =
      (if (tree.category id).isStatement then [ofNode tree depth id] else []) ++
        below.flatMap (within tree (depth + if (tree.category id).isStatement then 1 else 0)) := by
  rw [within, h, ← withinAll_eq]
  cases (tree.category id).isStatement <;> rfl

/-- The subtree at a node that nothing hides is listed from the depth of the node on. -/
theorem within_subtree (hid : id ≠ body ∧ tree.Within body id)
    (hshown : (tree.between body id).all (fun a => !hides tree a) = true) :
    within tree (nesting tree body id) (tree.subtree id) =
      ((tree.preorder id).filter (isListed tree body)).map fun a =>
        ofNode tree (nesting tree body a) a := by
  induction hn : tree.size - id using Nat.strongRecOn generalizing id with
  | ind n ih =>
    rw [tree.subtree_eq]
    cases hhides : hides tree id with
    | true => rw [within, if_pos hhides, filter_isListed_of_hides hid hhides, List.map_nil]
    | false =>
      have hself : isListed tree body id = (tree.category id).isStatement := by
        rw [isListed, hshown, Bool.and_true]
      rw [within_node _ _ _ hhides, tree.preorder_eq_cons, List.filter_cons, hself,
        List.flatMap_map]
      have hbelow : (tree.children id).flatMap (fun child => within tree (nesting tree body id +
            if (tree.category id).isStatement then 1 else 0) (tree.subtree child)) =
          (((tree.children id).flatMap tree.preorder).filter (isListed tree body)).map fun a =>
            ofNode tree (nesting tree body a) a := by
        rw [List.filter_flatMap, List.map_flatMap]
        refine List.flatMap_congr fun child hchild => ?_
        have hparent := tree.mem_children.1 hchild
        have hlt := tree.lt_of_mem_children hchild
        have hsize := tree.lt_size_of_mem_children hchild
        have hle := tree.le_of_within hid.2
        -- The way up from the child has the node itself and nothing else that is new.
        rw [← nesting_of_parent hparent hid]
        refine ih (tree.size - child) (by omega) ⟨by omega, Leads.step hparent hid.2⟩ ?_ rfl
        rw [Tree.between_of_parent hparent hid, List.all_cons, hshown, hhides]
        rfl
      rw [hbelow]
      cases (tree.category id).isStatement <;> rfl

/-- The statements of a body are the listed nodes below it, in preorder and with their depths. -/
theorem ofBody_eq (tree : Tree) (body : Nat) :
    ofBody tree body = ((tree.descendants body).filter (isListed tree body)).map fun id =>
      ofNode tree (nesting tree body id) id := by
  rw [ofBody, tree.subtree_eq, Rose.children, withinAll_eq, tree.descendants_eq, List.flatMap_map,
    List.filter_flatMap, List.map_flatMap]
  refine List.flatMap_congr fun child hchild => ?_
  have hparent := tree.mem_children.1 hchild
  have hlt := tree.lt_of_mem_children hchild
  have hnothing := Tree.between_child hparent
  have hnesting : nesting tree body child = 0 := by rw [nesting, hnothing, List.countP_nil]
  rw [← hnesting]
  refine within_subtree ⟨by omega, Leads.single hparent⟩ ?_
  rw [hnothing, List.all_nil]

theorem nesting_eq (tree : Tree) (body id : Nat) : nesting tree body id =
    tree.ids.countP fun a => tree.Between body id a ∧
      (tree.category a = .statement ∨ tree.category a = .variableDeclaration) := by
  rw [nesting, List.countP_eq_length_filter, List.countP_eq_length_filter]
  refine List.Perm.length_eq ((List.perm_ext_iff_of_nodup ((tree.nodup_between body id).filter _)
    (List.nodup_range.filter _)).2 fun a => ?_)
  rw [List.mem_filter, List.mem_filter, Tree.mem_between, decide_eq_true_eq,
    Category.isStatement_iff]
  constructor
  · intro ha
    have hsize := (tree.eq_or_lt_size_of_within ha.1.1.2).resolve_left ha.1.1.1
    exact ⟨List.mem_range.2 hsize, ha⟩
  · exact fun ha => ha.2

theorem isListed_iff : isListed tree body id = true ↔
    (tree.category id = .statement ∨ tree.category id = .variableDeclaration) ∧
      ∀ a, tree.Between body id a →
        tree.category a ≠ .operation ∧ tree.category a ≠ .typeDeclaration := by
  simp only [isListed, Bool.and_eq_true, Category.isStatement_iff, List.all_eq_true,
    Tree.mem_between, hides, Bool.not_eq_true', Bool.or_eq_false_iff, beq_eq_false_iff_ne]

/-! ### A stack of nodes that wait -/

/-- The statements that a stack of nodes, each waiting with its depth, yields in at most `fuel`
steps. -/
def stackFrom (tree : Tree) : Nat → List (Nat × Nat) → List Statement
  | 0, _ | _, [] => []
  | fuel + 1, (id, depth) :: rest =>
    if hides tree id then stackFrom tree fuel rest
    else if (tree.category id).isStatement then
      ofNode tree depth id :: stackFrom tree fuel ((tree.children id).map (·, depth + 1) ++ rest)
    else stackFrom tree fuel ((tree.children id).map (·, depth) ++ rest)

/-- With steps enough, a stack yields the statements of its subtrees, one subtree after the
other. -/
theorem stackFrom_eq (tree : Tree) (fuel : Nat) (items : List (Rose Nat × Nat))
    (hall : ∀ item ∈ items, item.1.Follows tree.children)
    (hfuel : (items.map fun item => item.1.preorder.length).sum ≤ fuel) :
    stackFrom tree fuel (items.map fun item => (item.1.value, item.2)) =
      items.flatMap fun item => within tree item.2 item.1 := by
  induction fuel generalizing items with
  | zero =>
    cases items with
    | nil => rfl
    | cons item items =>
      have hpos := List.length_pos_of_mem item.1.value_mem_preorder
      rw [List.map_cons, List.sum_cons] at hfuel
      omega
  | succ fuel ih =>
    rcases items with - | ⟨⟨⟨id, below⟩, depth⟩, items⟩
    · rfl
    · obtain ⟨hvalues, hbelow⟩ := hall _ (List.mem_cons_self ..)
      have hrest := fun item hitem => hall item (List.mem_cons_of_mem _ hitem)
      simp only [List.map_cons, List.sum_cons, Rose.preorder_node, List.length_cons,
        List.length_flatMap] at hfuel
      -- Opening the node puts its children before the rest.
      have hopen : ∀ depth, stackFrom tree fuel ((tree.children id).map (·, depth) ++
            items.map fun item => (item.1.value, item.2)) =
          withinAll tree depth below ++ items.flatMap fun item => within tree item.2 item.1 := by
        intro depth
        have hstack := ih (below.map (·, depth) ++ items) (fun item hitem => ?_) ?_
        · simpa [Function.comp_def, ← hvalues, withinAll_eq, List.flatMap_map] using hstack
        · rcases List.mem_append.1 hitem with hitem | hitem
          · obtain ⟨rose, hrose, rfl⟩ := List.mem_map.1 hitem
            exact hbelow rose hrose
          · exact hrest item hitem
        · simp only [List.map_append, List.map_map, List.sum_append, Function.comp_def]
          omega
      rw [List.map_cons, List.flatMap_cons, Rose.value_node, stackFrom, within]
      split
      · exact ih items hrest (by omega)
      · split
        · rw [hopen, List.cons_append]
        · rw [hopen]

/-! ### The body as a whole -/

theorem map_node_ofBody (tree : Tree) (body : Nat) :
    (ofBody tree body).map Statement.node =
      (tree.descendants body).filter (isListed tree body) := by
  rw [ofBody_eq, List.map_map]
  exact List.map_id _

theorem stackFrom_children (tree : Tree) (body : Nat) {fuel : Nat} (h : tree.size ≤ fuel) :
    stackFrom tree fuel ((tree.children body).map (·, 0)) = ofBody tree body := by
  have hfuel := tree.length_preorder_subtree_le body
  rw [tree.subtree_eq, Rose.preorder_node, List.length_cons, List.length_flatMap,
    List.map_map] at hfuel
  have hstack := stackFrom_eq tree fuel
    ((tree.children body).map fun child => (tree.subtree child, 0)) ?_ ?_
  · rw [ofBody, tree.subtree_eq, Rose.children, withinAll_eq, List.flatMap_map]
    simpa [Function.comp_def, List.flatMap_map] using hstack
  · intro item hitem
    obtain ⟨child, -, rfl⟩ := List.mem_map.1 hitem
    exact tree.subtree_follows child
  · rw [List.map_map]
    exact Nat.le_trans (Nat.le_of_succ_le_succ hfuel) h

/-- **A body lists its statements exactly.**  They come in preorder, each once: the statements and
variable declarations below the body with no operation and no class on the way up to it.  Each is as
deep as there are statements and variable declarations on that way.  A stack of nodes that wait with
their depths yields the same list. -/
theorem ofBody_lists_statements (tree : Tree) (body : Nat) :
    let nodes := (ofBody tree body).map Statement.node
    nodes.Sublist (tree.preorder body) ∧ nodes.Nodup ∧
    (∀ id, id ∈ nodes ↔ (id ≠ body ∧ tree.Within body id) ∧
      (tree.category id = .statement ∨ tree.category id = .variableDeclaration) ∧
      ∀ a, tree.Between body id a →
        tree.category a ≠ .operation ∧ tree.category a ≠ .typeDeclaration) ∧
    (∀ s ∈ ofBody tree body, s = ofNode tree s.depth s.node ∧
      s.depth = tree.ids.countP fun a => tree.Between body s.node a ∧
        (tree.category a = .statement ∨ tree.category a = .variableDeclaration)) ∧
    ∀ fuel ≥ tree.size,
      stackFrom tree fuel ((tree.children body).map (·, 0)) = ofBody tree body := by
  intro nodes
  have hnodes : nodes = (tree.descendants body).filter (isListed tree body) :=
    map_node_ofBody tree body
  have hpreorder : nodes.Sublist (tree.preorder body) := by
    rw [hnodes, Tree.descendants]
    exact List.filter_sublist.trans (List.tail_sublist _)
  refine ⟨hpreorder, (tree.nodup_preorder body).sublist hpreorder, fun id => ?_, fun s hs => ?_,
    fun fuel hfuel => stackFrom_children tree body hfuel⟩
  · rw [hnodes, List.mem_filter, Tree.mem_descendants, isListed_iff]
  · rw [ofBody_eq] at hs
    obtain ⟨id, -, rfl⟩ := List.mem_map.1 hs
    exact ⟨rfl, nesting_eq tree body id⟩

/-- Node `5` is nested in a statement, through a block, and node `6` in an operation. -/
theorem ofBody_lists_statements_nested :
    let tree : Tree := .ofNodes default "" #[{ kind := "block", category := .block },
      { kind := "if", category := .statement, parent := some 0 },
      { kind := "let", category := .variableDeclaration, parent := some 0 },
      { kind := "block", category := .block, parent := some 1 },
      { kind := "op", category := .operation, parent := some 0 },
      { kind := "call", category := .statement, parent := some 3 },
      { kind := "return", category := .statement, parent := some 4 }]
    (ofBody tree 0).map Statement.node = [1, 5, 2] ∧ tree.Between 0 6 4 ∧ 6 ∉ [1, 5, 2] ∧
      (∃ s ∈ ofBody tree 0, s.node = 5 ∧ s.depth = 1) ∧
      tree.size ≤ 7 ∧ stackFrom tree 7 [(1, 0), (2, 0), (4, 0)] = ofBody tree 0 := by
  intro tree
  obtain ⟨-, -, hlisted, hdepth, hstack⟩ := ofBody_lists_statements tree 0
  have hnodes : (ofBody tree 0).map Statement.node = [1, 5, 2] := rfl
  have hbetween : tree.Between 0 6 4 := by decide
  have hmem : 5 ∈ (ofBody tree 0).map Statement.node := by decide
  refine ⟨hnodes, hbetween, ?_, ?_, by decide, hstack 7 (by decide)⟩
  · rw [← hnodes]
    exact fun hsix => (((hlisted 6).1 hsix).2.2 4 hbetween).1 rfl
  · obtain ⟨s, hs, hnode⟩ := List.mem_map.1 hmem
    refine ⟨s, hs, hnode, (hdepth s hs).2.trans ?_⟩
    rw [hnode]
    decide

end Statement

end Reshape
