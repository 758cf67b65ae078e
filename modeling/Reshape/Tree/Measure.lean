import Reshape.Tree.Traversal

/-! # Measures of the subtrees of a tree

The height, size and digests of every subtree are computed bottom up: since parents come before
their children, one pass from the last node to the first meets every child before its parent. Depths
and indices are noted on one walk down from the root, which counts the nodes that it visits. A node
that is not below the root has depth and index zero.

A digest function turns the texts of a node and the digests of its children into a number. Equal
subtrees have equal digests; nothing else is asked of it. -/

namespace Reshape

/-- A way to sum up a node: the texts of the node and the digests of its children give a number. -/
abbrev Digest := List String → List UInt64 → UInt64

namespace Digest

/-- One step of a digest: mix in a word, then spread it. -/
def mix (state word : UInt64) : UInt64 :=
  (state ^^^ word) * 1099511628211

/-- The digest of the characters of a text, from a given state. -/
def text (state : UInt64) (text : String) : UInt64 :=
  mix (text.toList.foldl (fun state c => mix state c.toNat.toUInt64) state) 0x10ffff

/-- The digest function used for matching. -/
def standard : Digest := fun texts below =>
  below.foldl mix (texts.foldl text 14695981039346656037)

end Digest

namespace Tree

variable (tree : Tree)

/-- One value per node, where the value of a node is made from those of its children. -/
def foldUp {β : Type} (blank : β) (f : Nat → List β → β) : Array β :=
  tree.ids.foldr
    (fun id values => values.setIfInBounds id (f id ((tree.children id).map (values.getD · blank))))
    (Array.replicate tree.size blank)

/-- The height of every subtree; a leaf has height one. -/
def heights : Array Nat :=
  tree.foldUp 0 fun _ below => below.foldl max 0 + 1

/-- The number of nodes of every subtree. -/
def sizes : Array Nat :=
  tree.foldUp 0 fun _ below => below.foldl (· + ·) 0 + 1

/-- The digest of every subtree, made from kinds, labels and shape. -/
def digests (digest : Digest) : Array UInt64 :=
  tree.foldUp 0 fun id below => digest [tree.kind id, tree.label id] below

/-- The digest of every subtree, made from kinds and shape alone. -/
def shapeDigests (digest : Digest) : Array UInt64 :=
  tree.foldUp 0 fun id below => digest [tree.kind id] below

end Tree

/-- What is noted on the walk down from the root: how many nodes have been visited, the depths of
the nodes that have been seen, and the indices of those that have been visited. -/
structure Descent where
  count : Nat := 0
  depths : Array Nat
  indices : Array Nat

namespace Descent

/-- Visit a node: its children are one step deeper, and it has the number of nodes visited
before. -/
def visit (tree : Tree) (descent : Descent) (id : Nat) : Descent where
  count := descent.count + 1
  depths := (tree.children id).foldr
    (fun child depths => depths.setIfInBounds child (depths.getD id 0 + 1)) descent.depths
  indices := descent.indices.setIfInBounds id descent.count

/-- Visit the nodes below a stack of open nodes, in at most `fuel` steps. -/
def run (tree : Tree) : Nat → List Nat → Descent → Descent
  | 0, _, descent | _, [], descent => descent
  | fuel + 1, id :: rest, descent =>
    run tree fuel (tree.children id ++ rest) (descent.visit tree id)

end Descent

namespace Tree

variable (tree : Tree)

/-- The walk down from the root. -/
def descent : Descent :=
  Descent.run tree (tree.size + 1) [tree.root]
    { depths := Array.replicate tree.size 0, indices := Array.replicate tree.size 0 }

/-- The depth of every node. -/
def depths : Array Nat := tree.descent.depths

/-- The place of every node on the walk down from the root. -/
def indices : Array Nat := tree.descent.indices

end Tree

/-- A tree together with the measures of its nodes, taken under one digest function. -/
structure Measured (digest : Digest) where
  tree : Tree
  heights : Array Nat
  sizes : Array Nat
  depths : Array Nat
  indices : Array Nat
  digests : Array UInt64
  shapeDigests : Array UInt64
  heights_eq : heights = tree.heights
  sizes_eq : sizes = tree.sizes
  depths_eq : depths = tree.depths
  indices_eq : indices = tree.indices
  digests_eq : digests = tree.digests digest
  shapeDigests_eq : shapeDigests = tree.shapeDigests digest

/-- Take the measures of a tree. -/
def Tree.measured (digest : Digest) (tree : Tree) : Measured digest :=
  let descent := tree.descent
  { tree
    heights := tree.heights
    sizes := tree.sizes
    depths := descent.depths
    indices := descent.indices
    digests := tree.digests digest
    shapeDigests := tree.shapeDigests digest
    heights_eq := rfl
    sizes_eq := rfl
    depths_eq := rfl
    indices_eq := rfl
    digests_eq := rfl
    shapeDigests_eq := rfl }

namespace Measured

variable {digest : Digest} (measured : Measured digest)

/-- The height of the subtree at a node. -/
def height (id : Nat) : Nat := measured.heights.getD id 0

/-- The number of nodes of the subtree at a node. -/
def size (id : Nat) : Nat := measured.sizes.getD id 0

/-- The depth of a node. -/
def depth (id : Nat) : Nat := measured.depths.getD id 0

/-- The place of a node on the walk down from the root. -/
def index (id : Nat) : Nat := measured.indices.getD id 0

end Measured

end Reshape
