import Mathlib
import Reshape.Proofs.Model.Construction
import Reshape.Proofs.Model.Statements

/-! # Where the parts of a model stand in the code

The statements of an operation are found below its body, and its variables below its statements.  So
all of them belong to the subtree of the body, and to that of the node that declares the operation.
Joining the models of several files keeps this: the number of an entity tells the file that declares
it. -/

namespace Reshape

/-! ### Nodes that are found below a node -/

namespace Tree

variable {tree : Tree} {id child : Nat}

theorem within_of_childWithRole {role : Role} (h : tree.childWithRole? id role = some child) :
    tree.Within id child :=
  Leads.single (tree.mem_children.1 (List.mem_of_find?_eq_some h))

/-- A node that belongs to the subtree of a child of another. -/
def Inside (tree : Tree) (root id : Nat) : Prop :=
  ∃ child ∈ tree.children root, tree.Within child id

theorem Inside.within (h : tree.Inside id child) : tree.Within id child := by
  obtain ⟨first, hfirst, hwithin⟩ := h
  exact hwithin.trans (Leads.single (tree.mem_children.1 hfirst))

theorem Inside.trans_within {node : Nat} (h : tree.Inside id child)
    (hnode : tree.Within child node) :
    tree.Inside id node := by
  obtain ⟨first, hfirst, hwithin⟩ := h
  exact ⟨first, hfirst, hnode.trans hwithin⟩

theorem inside_iff : tree.Inside id child ↔ child ≠ id ∧ tree.Within id child := by
  rw [← mem_descendants, descendants_eq, List.mem_flatMap, Inside]
  simp only [tree.mem_preorder]

/-- Whatever is listed below a node stands inside it. -/
theorem inside_of_mem_subtree_children
    (h : child ∈ (tree.subtree id).children.flatMap Rose.preorder) :
    tree.Inside id child := by
  rw [tree.subtree_eq, Rose.children, List.flatMap_map, List.mem_flatMap] at h
  obtain ⟨first, hfirst, hmem⟩ := h
  rw [← tree.preorder_eq, tree.mem_preorder] at hmem
  exact ⟨first, hfirst, hmem⟩

end Tree

namespace Statement

variable {tree : Tree} {statement : Statement}

theorem inside_of_mem_ofBody {body : Nat} (h : statement ∈ ofBody tree body) :
    tree.Inside body statement.node := by
  rw [ofBody_eq] at h
  obtain ⟨id, hid, rfl⟩ := List.mem_map.1 h
  exact Tree.inside_iff.2 (Tree.mem_descendants.1 (List.mem_filter.1 hid).1)

end Statement

namespace Model

variable {tree : Tree} {model next other : Model} {declared : String × Nat}

theorem eq_of_mem_ownName {id : Nat} (h : declared ∈ ownName tree id) : declared.2 = id := by
  rw [ownName] at h
  split at h
  · rw [List.mem_singleton.1 h]
  · cases h

mutual

theorem node_mem_of_mem_namesWithin :
    (rose : Rose Nat) → declared ∈ namesWithin tree rose → declared.2 ∈ rose.preorder
  | .node id below, h => by
    rw [Rose.preorder_node]
    unfold namesWithin at h
    split at h
    · cases h
    · rcases List.mem_append.1 h with h | h
      · exact eq_of_mem_ownName h ▸ List.mem_cons_self ..
      · exact List.mem_cons_of_mem _ (node_mem_of_mem_namesWithinAll below h)

theorem node_mem_of_mem_namesWithinAll :
    (roses : List (Rose Nat)) → declared ∈ namesWithinAll tree roses →
      declared.2 ∈ roses.flatMap Rose.preorder
  | [], h => by cases h
  | rose :: roses, h => by
    rw [List.flatMap_cons, List.mem_append]
    rw [namesWithinAll, List.mem_append] at h
    exact h.imp (node_mem_of_mem_namesWithin rose) (node_mem_of_mem_namesWithinAll roses)

end

theorem within_of_mem_declaredNames {id : Nat} (h : declared ∈ declaredNames tree id) :
    tree.Within id declared.2 := by
  rcases List.mem_append.1 h with h | h
  · exact eq_of_mem_ownName h ▸ Leads.refl _
  · exact (Tree.inside_of_mem_subtree_children (node_mem_of_mem_namesWithinAll _ h)).within

theorem within_of_mem_variablesAt {operation : Nat} {statement : Statement} {v : Variable}
    (h : v ∈ variablesAt tree operation statement) :
    v.operation = operation ∧ v.path = tree.path ∧ tree.Within statement.node v.node := by
  rw [variablesAt] at h
  split at h
  · obtain ⟨declared, hdeclared, rfl⟩ := List.mem_map.1 h
    exact ⟨rfl, rfl, within_of_mem_declaredNames hdeclared⟩
  · cases h

/-! ### The model of a file -/

/-- An operation that a file declares, with statements of its own subtree. -/
def OperationIn (tree : Tree) (op : Operation) : Prop :=
  op.path = tree.path ∧ ∀ statement ∈ op.statements, tree.Within op.node statement.node

/-- A variable that a file declares inside the body of an operation of a model. -/
def VariableIn (tree : Tree) (model : Model) (v : Variable) : Prop :=
  v.path = tree.path ∧ ∃ op, model.operations[v.operation]? = some op ∧
    tree.Within op.node v.node ∧ ∃ body ∈ op.body, tree.Inside body v.node

/-- A model whose operations and variables stand where the file declares them. -/
structure LocatedIn (tree : Tree) (model : Model) : Prop where
  operations : ∀ op ∈ model.operations, OperationIn tree op
  locals : ∀ v ∈ model.locals, VariableIn tree model v

/-- The statements of an operation are found inside its body. -/
theorem inside_body_of_operation? {id number : Nat} {container : String} {owner : Option Nat}
    {op : Operation} (h : operation? tree id container owner number = some op)
    {statement : Statement} (hstatement : statement ∈ op.statements) :
    ∃ body ∈ op.body, tree.Within op.node body ∧ tree.Inside body statement.node := by
  obtain ⟨name, -, rfl⟩ := Option.map_eq_some_iff.1 h
  cases hbody : tree.childWithRole? id .body with
  | none =>
    simp only [hbody] at hstatement
    cases hstatement
  | some body =>
    simp only [hbody] at hstatement
    exact ⟨body, rfl, Tree.within_of_childWithRole hbody, Statement.inside_of_mem_ofBody hstatement⟩

theorem operationIn_of_operation? {id number : Nat} {container : String} {owner : Option Nat}
    {op : Operation} (h : operation? tree id container owner number = some op) :
    op.id = number ∧ OperationIn tree op := by
  have hstatements :=
    fun statement (hs : statement ∈ op.statements) => inside_body_of_operation? h hs
  obtain ⟨name, -, rfl⟩ := Option.map_eq_some_iff.1 h
  refine ⟨rfl, rfl, fun statement hstatement => ?_⟩
  obtain ⟨body, -, hbody, hinside⟩ := hstatements statement hstatement
  exact hinside.within.trans hbody

theorem mem_locals_append {locals : Array Variable} {more : List Variable} {v : Variable}
    (h : v ∈ locals ++ more) : v ∈ locals ∨ v ∈ more := by
  rw [← Array.mem_toList_iff] at h
  simpa using h

theorem LocatedIn.step (h : model.LocatedIn tree) (hstep : Step tree model next) :
    next.LocatedIn tree := by
  cases hstep with
  | addClass _ _ => exact ⟨h.operations, h.locals⟩
  | addAttributes _ => exact ⟨h.operations, h.locals⟩
  | @addOperation id container owner op _ hop =>
    obtain ⟨hid, hin⟩ := operationIn_of_operation? hop
    constructor
    · intro other hother
      rcases Array.mem_push.1 hother with hother | rfl
      · exact h.operations other hother
      · exact hin
    · intro v hv
      rcases mem_locals_append hv with hv | hv
      · obtain ⟨hpath, old, hold, hwithin⟩ := h.locals v hv
        have hlt := (Array.getElem?_eq_some_iff.1 hold).1
        exact ⟨hpath, old, by rw [Array.getElem?_push_lt hlt, ← hold, Array.getElem?_eq_getElem],
          hwithin⟩
      · obtain ⟨statement, hstatement, hv⟩ := List.mem_flatMap.1 hv
        obtain ⟨hoperation, hpath, hwithin⟩ := within_of_mem_variablesAt hv
        obtain ⟨body, hbody, hnode, hinside⟩ := inside_body_of_operation? hop hstatement
        have hv := hinside.trans_within hwithin
        refine ⟨hpath, op, ?_, hv.within.trans hnode, body, hbody, hv⟩
        rw [hoperation, hid]
        exact Array.getElem?_push_size

theorem locatedIn_ofTree (tree : Tree) : (ofTree tree).LocatedIn tree := by
  have hempty : empty.LocatedIn tree :=
    ⟨fun _ h => absurd h (Array.not_mem_empty _), fun _ h => absurd h (Array.not_mem_empty _)⟩
  obtain ⟨found, hfound, heq⟩ := exists_found (LocatedIn tree) (fun h hstep => h.step hstep) hempty
  rw [heq]
  exact ⟨hfound.operations, hfound.locals⟩

/-! ### The file that declares an entity -/

/-- The file that declares an entity: the entities of the first file come first, then those of the
others. -/
def treeOf? (kind : EntityKind) : List Tree → Nat → Option Tree
  | [], _ => none
  | tree :: trees, index =>
    if index < (ofTree tree).size kind then some tree
    else treeOf? kind trees (index - (ofTree tree).size kind)

theorem size_append (model other : Model) (kind : EntityKind) :
    (model.append other).size kind = model.size kind + other.size kind := by
  cases kind <;> simp [Model.append, shift, size]

theorem size_ofTrees (trees : List Tree) (kind : EntityKind) :
    (ofTrees trees).size kind = (trees.map fun tree => (ofTree tree).size kind).sum := by
  induction trees using List.reverseRecOn with
  | nil => cases kind <;> rfl
  | append_singleton trees tree ih => simp [ofTrees_concat, size_append, ih]

theorem treeOf?_append_left {kind : EntityKind} {trees more : List Tree} {index : Nat}
    (h : treeOf? kind trees index = some tree) :
    treeOf? kind (trees ++ more) index = some tree := by
  induction trees generalizing index with
  | nil => cases h
  | cons first trees ih =>
    rw [List.cons_append, treeOf?]
    rw [treeOf?] at h
    split
    · rename_i hlt
      rwa [if_pos hlt] at h
    · rename_i hlt
      rw [if_neg hlt] at h
      exact ih h

theorem treeOf?_append_right {kind : EntityKind} (trees : List Tree) {index : Nat}
    (h : index < (ofTree tree).size kind) :
    treeOf? kind (trees ++ [tree]) ((ofTrees trees).size kind + index) = some tree := by
  rw [size_ofTrees]
  induction trees with
  | nil => simp [treeOf?, h]
  | cons first trees ih =>
    rw [List.cons_append, treeOf?, if_neg (by simp; omega), List.map_cons, List.sum_cons,
      Nat.add_assoc, Nat.add_sub_cancel_left]
    exact ih

section Placed

variable {α : Type} {kind : EntityKind} {fits : Tree → α → Prop} {trees : List Tree}
  {entities more : Array α}

/-- Entities that fit the files that declare them. -/
def Placed (kind : EntityKind) (fits : Tree → α → Prop) (trees : List Tree) (entities : Array α) :
    Prop :=
  ∀ (i : Nat) (e : α), entities[i]? = some e → ∃ tree, treeOf? kind trees i = some tree ∧
    fits tree e

/-- The entities of one more file may follow, with their numbers moved up. -/
theorem Placed.append_map (h : Placed kind fits trees entities)
    (hsize : entities.size = (ofTrees trees).size kind) (hmore : ∀ e ∈ more, fits tree e)
    (hmore_size : more.size = (ofTree tree).size kind) {f : α → α}
    (hf : ∀ e, fits tree e → fits tree (f e)) :
    Placed kind fits (trees ++ [tree]) (entities ++ more.map f) := by
  intro i e he
  rw [Array.getElem?_append] at he
  split at he
  · obtain ⟨tree', htree', hfits⟩ := h i e he
    exact ⟨tree', treeOf?_append_left htree', hfits⟩
  · rename_i hle
    rw [Array.getElem?_map, Option.map_eq_some_iff] at he
    obtain ⟨old, hold, rfl⟩ := he
    have hlt := (Array.getElem?_eq_some_iff.1 hold).1
    refine ⟨tree, ?_, hf old (hmore old (Array.mem_of_getElem? hold))⟩
    have hplace := treeOf?_append_right trees (hmore_size ▸ hlt)
    rwa [← hsize, Nat.add_sub_cancel' (Nat.not_lt.1 hle)] at hplace

end Placed

/-! ### The model of several files -/

/-- A model whose parts stand where its files declare them. -/
structure Located (model : Model) (trees : List Tree) : Prop where
  classes : Placed .type (fun tree (c : Class) => c.path = tree.path) trees model.classes
  operations : Placed .operation OperationIn trees model.operations
  attributes : Placed .attribute (fun tree (a : Attribute) => a.path = tree.path) trees
    model.attributes
  locals : ∀ v ∈ model.locals, ∃ tree, treeOf? .operation trees v.operation = some tree ∧
    VariableIn tree model v

theorem located_ofTrees (trees : List Tree) : (ofTrees trees).Located trees := by
  induction trees using List.reverseRecOn with
  | nil =>
    constructor
    case locals => exact fun _ h => absurd h (Array.not_mem_empty _)
    all_goals exact fun i e he => by simp [ofTrees, empty] at he
  | append_singleton trees tree ih =>
    have hgrounded := grounded_ofTree tree
    have hlocated := locatedIn_ofTree tree
    rw [ofTrees_concat]
    constructor
    case classes =>
      refine ih.classes.append_map rfl (fun c hc => ?_) rfl fun _ hpath => hpath
      obtain ⟨i, hi⟩ := Array.mem_iff_getElem?.1 hc
      exact List.mem_singleton.1 (hgrounded.classes i c hi).2
    case operations => exact ih.operations.append_map rfl hlocated.operations rfl fun _ hin => hin
    case attributes =>
      refine ih.attributes.append_map rfl (fun a ha => ?_) rfl fun _ hpath => hpath
      obtain ⟨i, hi⟩ := Array.mem_iff_getElem?.1 ha
      exact List.mem_singleton.1 (hgrounded.attributes i a hi).2
    case locals =>
      intro v hv
      rcases Array.mem_append.1 hv with hv | hv
      · obtain ⟨tree', htree', hpath, op, hop, hwithin⟩ := ih.locals v hv
        refine ⟨tree', treeOf?_append_left htree', hpath, op, ?_, hwithin⟩
        have hlt := (Array.getElem?_eq_some_iff.1 hop).1
        exact (Array.getElem?_append_left hlt).trans hop
      · obtain ⟨old, hold, rfl⟩ := Array.mem_map.1 hv
        obtain ⟨hpath, op, hop, hwithin⟩ := hlocated.locals old hold
        have hlt := (Array.getElem?_eq_some_iff.1 hop).1
        refine ⟨tree, ?_, hpath, (ofTrees trees).counts.onOperation op, ?_, hwithin⟩
        · have hplace : treeOf? .operation (trees ++ [tree])
              ((ofTrees trees).size .operation + old.operation) = some tree :=
            treeOf?_append_right trees hlt
          rwa [Nat.add_comm] at hplace
        · show ((ofTrees trees).operations ++ _)[
            old.operation + (ofTrees trees).operations.size]? = _
          rw [Nat.add_comm, Array.getElem?_append_right (Nat.le_add_right _ _),
            Nat.add_sub_cancel_left]
          simp [shift, hop]

end Model

end Reshape
