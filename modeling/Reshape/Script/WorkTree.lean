import Reshape.Tree.Traversal

/-! # Work trees

A work tree is a copy of a subtree that is edited in place. Its nodes are numbered in the order of
their creation; node `top` is not part of the copy but holds its root. Nodes that were taken out
stay in the array and can be put back. -/

namespace Reshape

/-- One node of a work tree. -/
structure WorkNode where
  kind : String := ""
  label : String := ""
  parent : Option Nat := none
  children : List Nat := []
  /-- The source node that it is a copy of. -/
  origin : Option Nat := none
  deriving Repr, DecidableEq, Inhabited

/-- A tree that is being edited. -/
structure WorkTree where
  nodes : Array WorkNode
  deriving Repr, DecidableEq, Inhabited

namespace WorkTree

/-- The node that holds the root of the copy. -/
def top : Nat := 0

/-- The work tree that holds nothing. -/
def blank : WorkTree := ⟨#[{}]⟩

variable (work : WorkTree)

/-- The node of a number. -/
def node (w : Nat) : WorkNode :=
  work.nodes[w]?.getD {}

/-- The parent of a node. -/
def parent (w : Nat) : Option Nat := (work.node w).parent

/-- The children of a node. -/
def children (w : Nat) : List Nat := (work.node w).children

/-- The label of a node. -/
def label (w : Nat) : String := (work.node w).label

/-- The source node that a node is a copy of. -/
def origin (w : Nat) : Option Nat := (work.node w).origin

/-- The place of a node among the children of its parent. -/
def position? (w : Nat) : Option Nat :=
  (work.parent w).bind fun parent => (work.children parent).idxOf? w

/-- Change one node. -/
def modify (w : Nat) (f : WorkNode → WorkNode) : WorkTree :=
  ⟨work.nodes.modify w f⟩

/-- Give a node another label. -/
def setLabel (w : Nat) (label : String) : WorkTree :=
  work.modify w fun node => { node with label }

/-- Take a node, with all below it, away from its parent. -/
def detach (w : Nat) : WorkTree :=
  match work.parent w with
  | none => work
  | some parent =>
    (work.modify w fun node => { node with parent := none }).modify parent fun node =>
      { node with children := node.children.filter (· != w) }

/-- Put a node at a position below a parent, unless the position is behind the end. -/
def attach? (parent position w : Nat) : Option WorkTree :=
  if position ≤ (work.children parent).length then
    some <| (work.modify parent fun node =>
      { node with children := node.children.insertIdx position w }).modify w fun node =>
        { node with parent := some parent }
  else none

/-- Create a node. It has the number of nodes so far. -/
def push (node : WorkNode) : WorkTree :=
  ⟨work.nodes.push node⟩

/-- The number that the next node created gets. -/
def next : Nat := work.nodes.size

/-- The nodes of the subtree of a tree, each with the number its copy gets when the first copy has
the number `base`. -/
def copyNumbers (tree : Tree) (root base : Nat) : List (Nat × Nat) :=
  (tree.preorder root).zipIdx base

/-- The copy of one node of the subtree at `root`. -/
def copyNode (tree : Tree) (root : Nat) (numbers : List (Nat × Nat)) (keepOrigin : Bool)
    (id : Nat) :
    WorkNode where
  kind := tree.kind id
  label := tree.label id
  parent := if id = root then none else (tree.parent id).bind (List.lookup · numbers)
  children := (tree.children id).filterMap (List.lookup · numbers)
  origin := if keepOrigin then some id else none

/-- Create copies of the nodes of a subtree, linked among themselves but to nothing else. -/
def copySubtree (tree : Tree) (root : Nat) (keepOrigin : Bool) : WorkTree :=
  let numbers := copyNumbers tree root work.next
  ⟨work.nodes ++ (tree.preorder root).map (copyNode tree root numbers keepOrigin)⟩

/-- The nodes below a list of open nodes in postorder, in at most `fuel` steps. A node marked `true`
has been opened before. -/
def postorderFrom : Nat → List (Nat × Bool) → List Nat
  | 0, _ | _, [] => []
  | fuel + 1, (w, true) :: rest => w :: postorderFrom fuel rest
  | fuel + 1, (w, false) :: rest =>
    postorderFrom fuel ((work.children w).map (·, false) ++ (w, true) :: rest)

/-- The nodes below the top in postorder. -/
def postorder : List Nat :=
  work.postorderFrom (2 * work.nodes.size) ((work.children top).map (·, false))

mutual

/-- Whether the subtree at a work node has the kinds, labels and shape of a subtree of a tree. -/
def agrees (tree : Tree) : Rose Nat → Nat → Bool
  | .node id below, w =>
    (work.node w).kind == tree.kind id && (work.node w).label == tree.label id
      && agreesAll tree below (work.children w)

/-- Whether the subtrees at a list of work nodes agree with a list of subtrees. -/
def agreesAll (tree : Tree) : List (Rose Nat) → List Nat → Bool
  | [], [] => true
  | rose :: roses, w :: ws => agrees tree rose w && agreesAll tree roses ws
  | _, _ => false

end

end WorkTree

end Reshape
