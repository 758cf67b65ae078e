import Reshape.Text.Fragment
import Reshape.Text.Compact
import Reshape.Tree.Measure

/-! # Source text of nodes

A node covers a stretch of its file's source. Where the stretch is empty or cuts a character, the
label of the node stands for it. -/

namespace Reshape.Tree

/-- The source text of a node, or its label if it covers none. -/
def text (tree : Tree) (id : Nat) : String :=
  match Text.slice? tree.source (tree.span id).startByte (tree.span id).endByte with
  | some text => if text.isEmpty then tree.label id else text
  | none => tree.label id

/-- The source text of a node in compact form. -/
def compactText (tree : Tree) (id : Nat) : String :=
  Text.compact (tree.text id)

/-- The deepest node that covers exactly the bytes given and, if a category is given, has it. Of
several at one depth it is the last. -/
def findBySpan? (tree : Tree) (startByte endByte : Nat) (category : Option Category) : Option Nat :=
  let depths := tree.depths
  let covers := tree.ids.filter fun id =>
    (tree.span id).startByte == startByte && (tree.span id).endByte == endByte
      && category.all (· == tree.category id)
  covers.foldl
    (fun best id => if best.all fun b => depths.getD b 0 ≤ depths.getD id 0 then some id else best)
    none

end Reshape.Tree
