/-! # Nodes of a syntax tree

A node has the kind that its grammar gives it, a label, and the span of source text it covers. Two
neutral tags make trees of different languages comparable: the category of the node, and its role
within its parent. Within a tree, nodes are known by their numbers. -/

namespace Reshape

/-- A stretch of source text. Lines and columns count from one, bytes from zero; the end is
exclusive. -/
structure Span where
  startLine : Nat := 0
  startColumn : Nat := 0
  endLine : Nat := 0
  endColumn : Nat := 0
  startByte : Nat := 0
  endByte : Nat := 0
  deriving Repr, DecidableEq, Inhabited

namespace Span

/-- Whether another span lies within this one. -/
def contains (outer inner : Span) : Bool :=
  outer.startByte ≤ inner.startByte && inner.endByte ≤ outer.endByte

/-- The lines and columns of a span, as they are shown to a reader. -/
def text (span : Span) : String :=
  s!"{span.startLine}:{span.startColumn}-{span.endLine}:{span.endColumn}"

end Span

/-- What a node is, whatever its language. -/
inductive Category where
  | typeDeclaration
  | operation
  | attribute
  | parameter
  | variableDeclaration
  | statement
  | block
  | invocation
  | identifier
  | literal
  | other
  deriving Repr, DecidableEq, Inhabited

namespace Category

/-- Every category with its name. -/
def names : List (Category × String) :=
  [(typeDeclaration, "type_declaration"), (operation, "operation"), (.attribute, "attribute"),
   (parameter, "parameter"), (variableDeclaration, "variable_declaration"),
   (statement, "statement"), (block, "block"), (invocation, "invocation"),
   (identifier, "identifier"), (literal, "literal"), (other, "other")]

/-- The name of a category. -/
def name (category : Category) : String :=
  (names.lookup category).getD ""

/-- The category of a name. -/
def ofName? (text : String) : Option Category :=
  (names.find? (·.2 == text)).map (·.1)

/-- Whether nodes of this category are the statements of a body. -/
def isStatement : Category → Bool
  | statement | variableDeclaration => true
  | _ => false

end Category

/-- What a node is to its parent, where the grammar names the slot. -/
inductive Role where
  | name
  | type
  | parameters
  | body
  | superclass
  | interfaces
  | arguments
  | receiver
  | callee
  | condition
  | value
  deriving Repr, DecidableEq, Inhabited

namespace Role

/-- Every role with its name. -/
def names : List (Role × String) :=
  [(name, "name"), (type, "type"), (parameters, "parameters"), (body, "body"),
   (superclass, "superclass"), (interfaces, "interfaces"), (arguments, "arguments"),
   (receiver, "receiver"), (callee, "callee"), (condition, "condition"), (value, "value")]

/-- The name of a role. -/
def text (role : Role) : String :=
  (names.lookup role).getD ""

/-- The role of a name. -/
def ofName? (text : String) : Option Role :=
  (names.find? (·.2 == text)).map (·.1)

/-- The role that a field of a grammar stands for. -/
def ofField? : String → Option Role
  | "name" | "attribute" => some name
  | "type" | "return_type" => some type
  | "parameters" => some parameters
  | "body" => some body
  | "superclass" => some superclass
  | "interfaces" | "superclasses" => some interfaces
  | "arguments" => some arguments
  | "object" => some receiver
  | "function" => some callee
  | "condition" => some condition
  | "value" | "right" => some value
  | _ => none

end Role

/-- One node of a syntax tree. -/
structure Node where
  kind : String
  category : Category := .other
  role : Option Role := none
  label : String := ""
  span : Span := {}
  parent : Option Nat := none
  deriving Repr, DecidableEq, Inhabited

end Reshape
