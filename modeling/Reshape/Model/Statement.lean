import Reshape.Model.Entity
import Reshape.Text.Fragment
import Reshape.Tree.Text
import Reshape.Tree.Traversal

/-! # Statements of a body

The statements of a body are the statement nodes below it, in preorder, without those inside nested
operations and classes. A statement that holds a block or other statements is cut before the first
of them: what is left is its header. -/

namespace Reshape.Statement

variable (tree : Tree)

/-- Whether a node starts the part of a statement that is not its header. -/
def endsHeader (id : Nat) : Bool :=
  tree.category id == .block || (tree.category id).isStatement

/-- The place of the first child that is not part of the header. -/
def headerEnd? (id : Nat) : Option Nat :=
  (tree.children id).findIdx? (endsHeader tree)

/-- The text of a header that ends at a child. -/
def headerText (id child : Nat) : String :=
  let header := Text.slice? tree.source (tree.span id).startByte (tree.span child).startByte
  let text := Text.compact (header.getD (tree.label id))
  let trimmed := Text.trimEnd (fun c => c == '{' || c == ':') text
  if trimmed.isEmpty then tree.label id else trimmed

/-- The text of a statement. -/
def textAt (id : Nat) : String :=
  match (tree.children id).find? (endsHeader tree) with
  | none => tree.compactText id
  | some child => headerText tree id child

/-- The name of what an invocation node calls. -/
def invocationName? (id : Nat) : Option String :=
  match tree.childWithRole? id .name with
  | some name => some (tree.label name)
  | none =>
    match tree.childWithRole? id .type with
    | some type => some ("new " ++ tree.compactText type)
    | none =>
      (tree.childWithRole? id .callee).map fun callee =>
        match tree.childWithRole? callee .name with
        | some name => tree.label name
        | none => tree.compactText callee

/-- The arguments of an invocation node. -/
def argumentsAt (id : Nat) : List String :=
  match tree.childWithRole? id .arguments with
  | some arguments => (tree.children arguments).map tree.compactText
  | none => []

/-- The invocation at a node, if it is one. -/
def invocation? (id : Nat) : Option Invocation :=
  if tree.category id == .invocation then
    (invocationName? tree id).map fun name => { name, arguments := argumentsAt tree id, node := id }
  else none

/-- The invocations of a statement, those of its header only if it has one. -/
def invocationsAt (id : Nat) : List Invocation :=
  let roots := (tree.children id).takeWhile fun child => !endsHeader tree child
  (roots.flatMap tree.preorder).filterMap (invocation? tree)

/-- The statement at a node. -/
def ofNode (depth id : Nat) : Statement where
  text := textAt tree id
  kind := tree.kind id
  node := id
  span := tree.span id
  depth := depth
  composite := (headerEnd? tree id).isSome
  invocations := invocationsAt tree id

/-- Whether a node hides the statements below it. -/
def hides (id : Nat) : Bool :=
  tree.category id == .operation || tree.category id == .typeDeclaration

mutual

/-- The statements of a subtree, the top included. -/
def within (depth : Nat) : Rose Nat → List Statement
  | .node id below =>
    if hides tree id then []
    else if (tree.category id).isStatement then ofNode tree depth id :: withinAll (depth + 1) below
    else withinAll depth below

/-- The statements of a list of subtrees. -/
def withinAll (depth : Nat) : List (Rose Nat) → List Statement
  | [] => []
  | subtree :: rest => within depth subtree ++ withinAll depth rest

end

/-- The statements of a body. -/
def ofBody (body : Nat) : List Statement :=
  withinAll tree 0 (tree.subtree body).children

end Reshape.Statement
