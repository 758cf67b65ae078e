import Reshape.Text.Fragment
import Reshape.Text.Compact
import Reshape.Tree.Basic

/-! # Concrete syntax trees

A parser yields a concrete tree, with a node for every token, comment and bracket. Its syntax tree
keeps the named nodes that are no comments. Operators and keywords among the dropped tokens live on
in the label of their parent; a node that keeps no child has its own text, in compact form, as
label.

`prune` makes an ordered tree of nodes, and `number` lists such a tree in preorder, so that the
numbers of the nodes are their places in preorder. -/

namespace Reshape

/-- One node of a concrete tree. -/
structure ConcreteNode where
  kind : String
  /-- The slot of the grammar that the node fills in its parent. -/
  field : Option String := none
  named : Bool := true
  /-- Whether the node may occur anywhere, as comments do. -/
  extra : Bool := false
  isError : Bool := false
  isMissing : Bool := false
  /-- Whether there is a syntax error within the node. -/
  hasError : Bool := false
  startByte : Nat
  endByte : Nat
  deriving Repr, DecidableEq, Inhabited

/-- What decides the category of a node: its kind, and the kinds of its parent and grandparent. -/
abbrev Categorize := String → Option String → Option String → Category

namespace ConcreteNode

/-- Whether a node is part of the syntax tree. -/
def isKept (node : ConcreteNode) : Bool :=
  node.named && !node.extra

/-- The text of a node. -/
def text (source : String) (node : ConcreteNode) : String :=
  (Text.slice? source node.startByte node.endByte).getD ""

/-- Whether a character is punctuation that no label keeps. -/
def isPunctuation (c : Char) : Bool :=
  "()\x7b\x7d[];,.\"'@".toList.contains c

/-- Whether a token is kept in the label of its parent: operators and keywords, but no mere
punctuation. -/
def isLabelToken (text : String) : Bool :=
  !text.isEmpty && !text.toList.all isPunctuation

/-- The span between two byte offsets of a source. -/
def spanOf (bytes : List UInt8) (startByte endByte : Nat) : Span :=
  let start := Text.positionAfter (bytes.take startByte)
  let stop := Text.positionAfter (bytes.take endByte)
  { startLine := start.1 + 1, startColumn := start.2 + 1, endLine := stop.1 + 1,
    endColumn := stop.2 + 1, startByte, endByte }

/-- The label of a node: its text if it keeps no child, else the label tokens among its children. -/
def labelOf (source : String) (node : ConcreteNode) (children : List ConcreteNode) : String :=
  if children.any isKept then
    let tokens := (children.filter fun child => !child.named).map (text source)
    " ".intercalate (tokens.filter isLabelToken)
  else Text.compact (node.text source)

/-- The node of the syntax tree for a concrete node, without its parent. -/
def toNode (categorize : Categorize) (source : String) (bytes : List UInt8)
    (parentKind grandparentKind : Option String) (node : ConcreteNode)
    (children : List ConcreteNode) : Node where
  kind := node.kind
  category := categorize node.kind parentKind grandparentKind
  role := node.field.bind Role.ofField?
  label := labelOf source node children
  span := spanOf bytes node.startByte node.endByte

end ConcreteNode

/-- A parser's tree. -/
abbrev ConcreteTree := Rose ConcreteNode

namespace ConcreteTree

mutual

/-- The first node of a tree that is wrong or missing, in preorder; only children with an error
within are entered. -/
def firstError? : ConcreteTree → Option ConcreteNode
  | .node node children =>
    if node.isError || node.isMissing then some node else firstErrorAmong? children

/-- The first node of a list of trees that is wrong or missing. -/
def firstErrorAmong? : List ConcreteTree → Option ConcreteNode
  | [] => none
  | tree :: rest =>
    if tree.value.hasError then
      match firstError? tree with
      | some node => some node
      | none => firstErrorAmong? rest
    else firstErrorAmong? rest

end

/-- The line of the first syntax error of a tree that has one. -/
def errorLine? (source : String) (tree : ConcreteTree) : Option Nat :=
  if tree.value.hasError then
    match firstError? tree with
    | some node => some ((Text.positionAfter (source.toUTF8.toList.take node.startByte)).1 + 1)
    | none => some 1
  else none

mutual

/-- The kept nodes of a tree, as an ordered tree of nodes without parents. -/
def prune (categorize : Categorize) (source : String) (bytes : List UInt8)
    (parentKind grandparentKind : Option String) : ConcreteTree → Rose Node
  | .node node children =>
    .node
      (node.toNode categorize source bytes parentKind grandparentKind (children.map Rose.value))
      (pruneAll categorize source bytes (some node.kind) parentKind children)

/-- The kept trees of a list, pruned. -/
def pruneAll (categorize : Categorize) (source : String) (bytes : List UInt8)
    (parentKind grandparentKind : Option String) : List ConcreteTree → List (Rose Node)
  | [] => []
  | tree :: rest =>
    if tree.value.isKept then
      prune categorize source bytes parentKind grandparentKind tree
        :: pruneAll categorize source bytes parentKind grandparentKind rest
    else pruneAll categorize source bytes parentKind grandparentKind rest

end

mutual

/-- The nodes of an ordered tree in preorder, numbered from `next` on, with their parents. -/
def number (parent : Option Nat) (next : Nat) : Rose Node → List Node
  | .node node children => { node with parent } :: numberAll (some next) (next + 1) children

/-- The nodes of a list of ordered trees in preorder, numbered from `next` on. -/
def numberAll (parent : Option Nat) (next : Nat) : List (Rose Node) → List Node
  | [] => []
  | tree :: rest => number parent next tree ++ numberAll parent (next + tree.size) rest

end

/-- The syntax tree of a concrete tree. The root plays no role. -/
def toTree (categorize : Categorize) (path : Path) (source : String) (tree : ConcreteTree) : Tree :=
  let nodes := match prune categorize source source.toUTF8.toList none none tree with
    | .node node children => .node { node with role := none } children
  Tree.ofNodes path source (number none 0 nodes).toArray

end ConcreteTree

end Reshape
