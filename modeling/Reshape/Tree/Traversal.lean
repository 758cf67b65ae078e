import Reshape.Tree.Basic

/-! # Walking a numbered tree

Every walk down keeps a list of nodes still to be visited and ends when the list is empty. A walk
visits each node of a subtree once, so the number of nodes bounds its steps. Walks up follow the
parents, whose numbers decrease. -/

namespace Reshape.Tree

variable (tree : Tree)

/-- The nodes below a list of open nodes in preorder, in at most `fuel` steps. -/
def preorderFrom : Nat → List Nat → List Nat
  | 0, _ | _, [] => []
  | fuel + 1, id :: rest => id :: preorderFrom fuel (tree.children id ++ rest)

/-- The nodes of the subtree at `id` in preorder. -/
def preorder (id : Nat) : List Nat :=
  tree.preorderFrom (tree.size + 1) [id]

/-- The nodes below a list of open nodes in postorder, in at most `fuel` steps. A node marked `true`
has been opened before. -/
def postorderFrom : Nat → List (Nat × Bool) → List Nat
  | 0, _ | _, [] => []
  | fuel + 1, (id, true) :: rest => id :: postorderFrom fuel rest
  | fuel + 1, (id, false) :: rest =>
    postorderFrom fuel ((tree.children id).map (·, false) ++ (id, true) :: rest)

/-- The nodes of the subtree at `id` in postorder. -/
def postorder (id : Nat) : List Nat :=
  tree.postorderFrom (2 * (tree.size + 1)) [(id, false)]

/-- The nodes below a queue of open nodes level by level, in at most `fuel` steps. -/
def breadthFirstFrom : Nat → List Nat → List Nat
  | 0, _ | _, [] => []
  | fuel + 1, id :: rest => id :: breadthFirstFrom fuel (rest ++ tree.children id)

/-- The nodes of the subtree at `id` level by level. -/
def breadthFirst (id : Nat) : List Nat :=
  tree.breadthFirstFrom (tree.size + 1) [id]

/-- The nodes strictly below `id` in preorder. -/
def descendants (id : Nat) : List Nat :=
  (tree.preorder id).tail

/-- The ancestors of a node, nearest first, at most `fuel` of them. -/
def ancestorsWithin : Nat → Nat → List Nat
  | 0, _ => []
  | fuel + 1, id =>
    match tree.parent id with
    | none => []
    | some parent => parent :: ancestorsWithin fuel parent

/-- The ancestors of a node, nearest first. -/
def ancestors (id : Nat) : List Nat :=
  tree.ancestorsWithin id id

/-- Whether `ancestor` is `id` or one of its ancestors. -/
def isAncestorOrSelf (ancestor id : Nat) : Bool :=
  (id :: tree.ancestors id).contains ancestor

end Reshape.Tree
