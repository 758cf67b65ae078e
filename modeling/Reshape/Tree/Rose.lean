/-! # Ordered trees

A rose tree is a value with an ordered list of trees below it. It is the plain mathematical shape
behind the numbered trees of this library: traversals, sizes and equality of numbered trees are all
explained through it. -/

namespace Reshape

/-- An ordered tree with a value at every node. -/
inductive Rose (α : Type) where
  | node (value : α) (children : List (Rose α))
  deriving Repr

namespace Rose

variable {α β : Type}

instance [Inhabited α] : Inhabited (Rose α) := ⟨.node default []⟩

/-- The value at the top. -/
def value : Rose α → α
  | node value _ => value

/-- The trees right below the top. -/
def children : Rose α → List (Rose α)
  | node _ children => children

mutual

/-- The tree with a function applied to every value. -/
def map (f : α → β) : Rose α → Rose β
  | node value children => node (f value) (mapAll f children)

/-- A list of trees with a function applied to every value. -/
def mapAll (f : α → β) : List (Rose α) → List (Rose β)
  | [] => []
  | tree :: trees => map f tree :: mapAll f trees

end

mutual

/-- The values in preorder: a node before the nodes below it. -/
def preorder : Rose α → List α
  | node value children => value :: preorderAll children

/-- The values of a list of trees in preorder. -/
def preorderAll : List (Rose α) → List α
  | [] => []
  | tree :: trees => preorder tree ++ preorderAll trees

end

mutual

/-- The values in postorder: a node after the nodes below it. -/
def postorder : Rose α → List α
  | node value children => postorderAll children ++ [value]

/-- The values of a list of trees in postorder. -/
def postorderAll : List (Rose α) → List α
  | [] => []
  | tree :: trees => postorder tree ++ postorderAll trees

end

/-- Two lists of levels joined level by level. -/
def joinLevels : List (List α) → List (List α) → List (List α)
  | [], levels => levels
  | levels, [] => levels
  | level :: levels, level' :: levels' => (level ++ level') :: joinLevels levels levels'

mutual

/-- The values level by level, each level from left to right. -/
def levels : Rose α → List (List α)
  | node value children => [value] :: levelsAll children

/-- The levels of a list of trees. -/
def levelsAll : List (Rose α) → List (List α)
  | [] => []
  | tree :: trees => joinLevels (levels tree) (levelsAll trees)

end

/-- The values in level order. -/
def levelOrder (tree : Rose α) : List α :=
  tree.levels.flatten

mutual

/-- The number of nodes. -/
def size : Rose α → Nat
  | node _ children => sizeAll children + 1

/-- The number of nodes of a list of trees. -/
def sizeAll : List (Rose α) → Nat
  | [] => 0
  | tree :: trees => size tree + sizeAll trees

end

mutual

/-- The number of nodes on a longest way down. -/
def height : Rose α → Nat
  | node _ children => heightAll children + 1

/-- The greatest height among a list of trees. -/
def heightAll : List (Rose α) → Nat
  | [] => 0
  | tree :: trees => max (height tree) (heightAll trees)

end

end Rose

end Reshape
