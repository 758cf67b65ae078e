import Reshape.Path
import Reshape.Tree.Node

/-! # Entities of a program

Classes, operations and attributes are the entities of a program. Each knows its number within its
model, the file and the node that declare it, and the qualified name of what contains it. Operations
also know their parameters and the statements of their body. -/

namespace Reshape

/-- The name of a member of a container; at top level the container is empty. -/
def qualify (container name : String) : String :=
  if container.isEmpty then name else s!"{container}.{name}"

/-- A name followed by its type, if it has one. -/
def typed (separator name : String) : Option String → String
  | some typeName => name ++ separator ++ typeName
  | none => name

/-- A formal parameter. -/
structure Parameter where
  name : String
  typeName : Option String := none
  node : Nat := 0
  deriving Repr, DecidableEq, Inhabited

/-- A parameter as readers see it. -/
def Parameter.text (parameter : Parameter) : String :=
  typed " " parameter.name parameter.typeName

/-- A call made by a statement. A constructor call has the name `new T`. -/
structure Invocation where
  name : String
  arguments : List String
  node : Nat
  deriving Repr, DecidableEq, Inhabited

/-- One statement of a body. A statement that holds others is represented by its header; the others
follow it. -/
structure Statement where
  text : String
  kind : String
  node : Nat
  span : Span
  /-- The number of statements of the body that it is nested in. -/
  depth : Nat
  /-- Whether it may hold other statements. -/
  composite : Bool
  invocations : List Invocation
  deriving Repr, DecidableEq, Inhabited

/-- A class, an interface, an enumeration or a record. -/
structure Class where
  id : Nat
  name : String
  container : String
  path : Path
  node : Nat
  span : Span
  /-- Names of the direct supertypes, superclass first. -/
  supertypes : List String
  /-- The class that it is declared in. -/
  outer : Option Nat
  operations : List Nat := []
  attributes : List Nat := []
  deriving Repr, Inhabited

namespace Class

/-- The qualified name of a class. -/
def qualifiedName (c : Class) : String := qualify c.container c.name

/-- Whether a class has a direct supertype of a name. -/
def hasSupertype (c : Class) (name : String) : Bool := c.supertypes.contains name

end Class

/-- A method, a constructor or a function. -/
structure Operation where
  id : Nat
  name : String
  /-- The class that it is a member of. -/
  owner : Option Nat
  container : String
  path : Path
  node : Nat
  span : Span
  parameters : List Parameter
  returnType : Option String
  body : Option Nat
  statements : List Statement
  deriving Repr, Inhabited

namespace Operation

/-- The qualified name of an operation. -/
def qualifiedName (op : Operation) : String := qualify op.container op.name

/-- The types of the parameters; `_` stands for a missing one. -/
def parameterTypes (op : Operation) : List String :=
  op.parameters.map fun parameter => parameter.typeName.getD "_"

/-- The name and the types of the parameters. -/
def signatureKey (op : Operation) : String :=
  op.name ++ "(" ++ ",".intercalate op.parameterTypes ++ ")"

/-- The signature as readers see it. -/
def signature (op : Operation) : String :=
  let parameters := ", ".intercalate (op.parameters.map Parameter.text)
  typed " : " (op.name ++ "(" ++ parameters ++ ")") op.returnType

/-- The texts of the statements. -/
def statementTexts (op : Operation) : List String :=
  op.statements.map Statement.text

/-- The calls of the operation of a name, in order. -/
def callsOf (op : Operation) (name : String) : List Invocation :=
  (op.statements.flatMap Statement.invocations).filter (·.name == name)

/-- Whether the operation calls one of a name. -/
def calls (op : Operation) (name : String) : Bool :=
  op.statements.any fun statement => statement.invocations.any (·.name == name)

end Operation

/-- A field of a class. -/
structure Attribute where
  id : Nat
  name : String
  typeName : Option String
  /-- The class that it is a member of. -/
  owner : Nat
  container : String
  path : Path
  node : Nat
  span : Span
  deriving Repr, Inhabited

namespace Attribute

/-- The qualified name of an attribute. -/
def qualifiedName (a : Attribute) : String := qualify a.container a.name

/-- The attribute as readers see it. -/
def signature (a : Attribute) : String := typed " : " a.name a.typeName

end Attribute

/-- A local variable of an operation. -/
structure Variable where
  name : String
  typeName : Option String := none
  /-- The initial value, in compact form. -/
  initializer : Option String := none
  operation : Nat
  path : Path
  node : Nat
  /-- The span of the declaring statement. -/
  span : Span
  deriving Repr, BEq, Inhabited

/-- A variable as readers see it. -/
def Variable.text (v : Variable) : String := typed " : " v.name v.typeName

/-- The kinds of entities. -/
inductive EntityKind where
  | type
  | operation
  | attribute
  deriving Repr, DecidableEq, Inhabited

namespace EntityKind

/-- Every kind with its name. -/
def names : List (EntityKind × String) :=
  [(type, "class"), (operation, "operation"), (.attribute, "attribute")]

/-- The name of a kind. -/
def name (kind : EntityKind) : String :=
  (names.lookup kind).getD ""

/-- The kind of a name. -/
def ofName? (text : String) : Option EntityKind :=
  (names.find? (·.2 == text)).map (·.1)

end EntityKind

/-- An entity of a model, by its kind and its number. -/
structure EntityId where
  kind : EntityKind
  index : Nat
  deriving Repr, DecidableEq, Inhabited

/-- The description of an entity that can be read without its model. -/
structure EntityRef where
  id : EntityId
  name : String
  container : String
  signature : String
  path : Path
  node : Nat
  span : Span
  deriving Repr, BEq, Inhabited

/-- The qualified name of an entity. -/
def EntityRef.qualifiedName (e : EntityRef) : String := qualify e.container e.name

end Reshape
