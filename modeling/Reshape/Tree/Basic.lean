import Reshape.Path
import Reshape.Tree.Node
import Reshape.Tree.Rose

/-! # Numbered syntax trees

The syntax tree of one file is an array of nodes. A node knows its parent, and every parent comes
before its children; beyond that the numbering is free. The children of a node are the nodes that
name it as parent, in the order of their numbers. They are tabulated once.

Node `0` is the root. Nodes without a parent other than the root may occur; they are not below
it. -/

namespace Reshape

/-- The parent of a node in an array of nodes. -/
def Node.parentIn (nodes : Array Node) (id : Nat) : Option Nat :=
  nodes[id]?.bind Node.parent

/-- The children of a node in an array of nodes. -/
def Node.childrenIn (nodes : Array Node) (id : Nat) : List Nat :=
  (List.range nodes.size).filter fun child => Node.parentIn nodes child == some id

/-- The children of every node of an array. -/
def Node.childTable (nodes : Array Node) : Array (List Nat) :=
  Array.ofFn fun id : Fin nodes.size => Node.childrenIn nodes id

/-- The syntax tree of one file. -/
structure Tree where
  path : Path
  source : String
  nodes : Array Node
  parent_lt : ∀ id parent, Node.parentIn nodes id = some parent → parent < id
  childTable : Array (List Nat)
  childTable_eq : childTable = Node.childTable nodes

namespace Tree

/-- The nodes of a list with every parent that is no earlier node dropped. -/
def parentsFirst (nodes : Array Node) : Array Node :=
  nodes.mapIdx fun id node => { node with parent := node.parent.filter (· < id) }

theorem parentIn_parentsFirst (nodes : Array Node) (id parent : Nat)
    (h : Node.parentIn (parentsFirst nodes) id = some parent) : parent < id := by
  unfold Node.parentIn parentsFirst at h
  rw [Array.getElem?_mapIdx] at h
  cases hn : nodes[id]? with
  | none => simp [hn] at h
  | some node =>
    simp only [hn, Option.map_some, Option.bind_some, Option.filter_eq_some_iff] at h
    simpa using h.2

/-- The tree of a list of nodes. A parent that is no earlier node is dropped. -/
def ofNodes (path : Path) (source : String) (nodes : Array Node) : Tree where
  path := path
  source := source
  nodes := parentsFirst nodes
  parent_lt := parentIn_parentsFirst nodes
  childTable := Node.childTable (parentsFirst nodes)
  childTable_eq := rfl

instance : Inhabited Tree := ⟨ofNodes default "" #[]⟩

/-- The root of a tree. -/
def root (_ : Tree) : Nat := 0

/-- The number of nodes. -/
def size (tree : Tree) : Nat :=
  tree.nodes.size

/-- Whether a tree has no nodes. -/
def isEmpty (tree : Tree) : Bool :=
  tree.nodes.isEmpty

/-- The numbers of all nodes, ascending. -/
def ids (tree : Tree) : List Nat :=
  List.range tree.size

/-- The node of a number; a number out of range has a blank node. -/
def node (tree : Tree) (id : Nat) : Node :=
  tree.nodes[id]?.getD default

/-- The kind of a node. -/
def kind (tree : Tree) (id : Nat) : String := (tree.node id).kind

/-- The label of a node. -/
def label (tree : Tree) (id : Nat) : String := (tree.node id).label

/-- The category of a node. -/
def category (tree : Tree) (id : Nat) : Category := (tree.node id).category

/-- The role of a node in its parent. -/
def role (tree : Tree) (id : Nat) : Option Role := (tree.node id).role

/-- The span of a node. -/
def span (tree : Tree) (id : Nat) : Span := (tree.node id).span

/-- The parent of a node. -/
def parent (tree : Tree) (id : Nat) : Option Nat :=
  Node.parentIn tree.nodes id

/-- The children of a node, in order. -/
def children (tree : Tree) (id : Nat) : List Nat :=
  tree.childTable[id]?.getD []

theorem lt_of_parent (tree : Tree) {id parent : Nat} (h : tree.parent id = some parent) :
    parent < id :=
  tree.parent_lt id parent h

theorem lt_size_of_parent (tree : Tree) {id parent : Nat} (h : tree.parent id = some parent) :
    id < tree.size := by
  unfold Tree.parent Node.parentIn at h
  obtain ⟨node, hn, -⟩ := Option.bind_eq_some_iff.1 h
  exact (Array.getElem?_eq_some_iff.1 hn).1

/-- The children of a node are the nodes whose parent it is, ascending. -/
theorem children_eq (tree : Tree) (id : Nat) :
    tree.children id = tree.ids.filter fun child => tree.parent child == some id := by
  unfold children
  rw [tree.childTable_eq, Node.childTable]
  by_cases h : id < tree.nodes.size
  · simp only [Array.getElem?_ofFn, h, ↓reduceDIte, Option.getD_some]
    rfl
  · simp only [Array.getElem?_ofFn, h, ↓reduceDIte, Option.getD_none]
    symm
    rw [List.filter_eq_nil_iff]
    intro child _ hp
    have hparent : tree.parent child = some id := by simpa using hp
    exact h (Nat.lt_trans (tree.lt_of_parent hparent) (tree.lt_size_of_parent hparent))

theorem mem_children (tree : Tree) {child id : Nat} :
    child ∈ tree.children id ↔ tree.parent child = some id := by
  rw [children_eq, List.mem_filter]
  constructor
  · intro h
    simpa using h.2
  · intro h
    exact ⟨List.mem_range.2 (tree.lt_size_of_parent h), by simpa using h⟩

theorem lt_of_mem_children (tree : Tree) {child id : Nat} (h : child ∈ tree.children id) :
    id < child :=
  tree.lt_of_parent (tree.mem_children.1 h)

theorem lt_size_of_mem_children (tree : Tree) {child id : Nat} (h : child ∈ tree.children id) :
    child < tree.size :=
  tree.lt_size_of_parent (tree.mem_children.1 h)

/-- A number out of range has no children. -/
theorem children_eq_nil (tree : Tree) {id : Nat} (h : tree.size ≤ id) : tree.children id = [] := by
  refine List.eq_nil_iff_forall_not_mem.2 fun child hc => ?_
  have := tree.lt_of_mem_children hc
  have := tree.lt_size_of_mem_children hc
  omega

/-- The first child that plays a role. -/
def childWithRole? (tree : Tree) (id : Nat) (role : Role) : Option Nat :=
  (tree.children id).find? fun child => tree.role child == some role

/-- The place of a node among the children of its parent. -/
def positionInParent? (tree : Tree) (id : Nat) : Option Nat :=
  (tree.parent id).bind fun parent => (tree.children parent).idxOf? id

/-- The subtree below a node, at most `fuel` levels deep below it. -/
def subtreeWithin (tree : Tree) : Nat → Nat → Rose Nat
  | 0, id => .node id []
  | fuel + 1, id => .node id ((tree.children id).map (tree.subtreeWithin fuel))

/-- The subtree at a node as an ordered tree of node numbers. Numbers grow on the way down, so no
way down is longer than the numbers that are left. -/
def subtree (tree : Tree) (id : Nat) : Rose Nat :=
  tree.subtreeWithin (tree.size - id) id

theorem subtreeWithin_eq (tree : Tree) {fuel fuel' : Nat} {id : Nat}
    (h : tree.size - id ≤ fuel) (h' : tree.size - id ≤ fuel') :
    tree.subtreeWithin fuel id = tree.subtreeWithin fuel' id := by
  induction fuel generalizing fuel' id with
  | zero =>
    cases fuel' with
    | zero => rfl
    | succ fuel' => simp [subtreeWithin, tree.children_eq_nil (by omega : tree.size ≤ id)]
  | succ fuel ih =>
    cases fuel' with
    | zero => simp [subtreeWithin, tree.children_eq_nil (by omega : tree.size ≤ id)]
    | succ fuel' =>
      simp only [subtreeWithin, Rose.node.injEq, true_and]
      refine List.map_congr_left fun child hc => ?_
      have hlt := tree.lt_of_mem_children hc
      have hsize := tree.lt_size_of_mem_children hc
      exact ih (by omega) (by omega)

/-- The subtree at a node consists of the node and the subtrees at its children. -/
theorem subtree_eq (tree : Tree) (id : Nat) :
    tree.subtree id = .node id ((tree.children id).map tree.subtree) := by
  have : tree.subtree id = tree.subtreeWithin (tree.size - id + 1) id :=
    tree.subtreeWithin_eq (Nat.le_refl _) (by omega)
  rw [this, subtreeWithin]
  congr 1
  refine List.map_congr_left fun child hc => ?_
  have := tree.lt_of_mem_children hc
  exact tree.subtreeWithin_eq (by omega) (Nat.le_refl _)

end Tree

end Reshape
