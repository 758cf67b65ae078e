import Reshape.Model.Entity

/-! # Models

A model holds the entities of a set of files. Entities are numbered by their place; two models are
joined by numbering the entities of the second one behind those of the first. -/

namespace Reshape

/-- The entities of a set of files. -/
structure Model where
  classes : Array Class := #[]
  operations : Array Operation := #[]
  attributes : Array Attribute := #[]
  locals : Array Variable := #[]
  deriving Inhabited

/-- How far the numbers of the entities of a model are moved up. -/
structure Offset where
  classes : Nat := 0
  operations : Nat := 0
  attributes : Nat := 0
  deriving Repr, DecidableEq

namespace Offset

/-- A class with its numbers moved up. -/
def onClass (offset : Offset) (c : Class) : Class :=
  { c with
    id := c.id + offset.classes
    outer := c.outer.map (· + offset.classes)
    operations := c.operations.map (· + offset.operations)
    attributes := c.attributes.map (· + offset.attributes) }

/-- An operation with its numbers moved up. -/
def onOperation (offset : Offset) (op : Operation) : Operation :=
  { op with
    id := op.id + offset.operations
    owner := op.owner.map (· + offset.classes) }

/-- An attribute with its numbers moved up. -/
def onAttribute (offset : Offset) (a : Attribute) : Attribute :=
  { a with
    id := a.id + offset.attributes
    owner := a.owner + offset.classes }

/-- A variable with its numbers moved up. -/
def onVariable (offset : Offset) (v : Variable) : Variable :=
  { v with operation := v.operation + offset.operations }

end Offset

namespace Model

variable (model : Model)

/-- The model without entities. -/
def empty : Model := {}

/-- The numbers of entities of a model. -/
def counts : Offset where
  classes := model.classes.size
  operations := model.operations.size
  attributes := model.attributes.size

/-- A model with its numbers moved up. -/
def shift (offset : Offset) : Model where
  classes := model.classes.map offset.onClass
  operations := model.operations.map offset.onOperation
  attributes := model.attributes.map offset.onAttribute
  locals := model.locals.map offset.onVariable

/-- The entities of one model followed by those of another. -/
def append (other : Model) : Model :=
  let shifted := other.shift model.counts
  { classes := model.classes ++ shifted.classes
    operations := model.operations ++ shifted.operations
    attributes := model.attributes ++ shifted.attributes
    locals := model.locals ++ shifted.locals }

instance : Append Model := ⟨append⟩

/-- The class of a number; a number out of range has a blank class. -/
def classAt (id : Nat) : Class := model.classes[id]?.getD default

/-- The operation of a number; a number out of range has a blank operation. -/
def operationAt (id : Nat) : Operation := model.operations[id]?.getD default

/-- The attribute of a number; a number out of range has a blank attribute. -/
def attributeAt (id : Nat) : Attribute := model.attributes[id]?.getD default

/-- The numbers of all classes. -/
def classIds : List Nat := List.range model.classes.size

/-- The numbers of all operations. -/
def operationIds : List Nat := List.range model.operations.size

/-- The numbers of all attributes. -/
def attributeIds : List Nat := List.range model.attributes.size

/-- Whether there is no entity. -/
def isEmpty : Bool :=
  model.classes.isEmpty && model.operations.isEmpty && model.attributes.isEmpty

/-- The local variables of an operation, in the order of their declarations. -/
def variablesOf (operation : Nat) : List Variable :=
  model.locals.toList.filter (·.operation == operation)

/-- The first class of a qualified name. -/
def classByName? (qualifiedName : String) : Option Class :=
  model.classes.toList.find? (·.qualifiedName == qualifiedName)

/-- The classes of a file. -/
def classesIn (path : Path) : List Class :=
  model.classes.toList.filter (·.path == path)

/-- The operations of a file. -/
def operationsIn (path : Path) : List Operation :=
  model.operations.toList.filter (·.path == path)

/-- The classes that name a class as direct supertype. -/
def subclassesOf (id : Nat) : List Class :=
  model.classes.toList.filter (·.hasSupertype (model.classAt id).name)

/-- The description of a class. -/
def classRef (id : Nat) : EntityRef :=
  let c := model.classAt id
  { id := ⟨.type, id⟩, name := c.name, container := c.container, signature := c.qualifiedName,
    path := c.path, node := c.node, span := c.span }

/-- The description of an operation. -/
def operationRef (id : Nat) : EntityRef :=
  let op := model.operationAt id
  { id := ⟨.operation, id⟩, name := op.name, container := op.container, signature := op.signature,
    path := op.path, node := op.node, span := op.span }

/-- The description of an attribute. -/
def attributeRef (id : Nat) : EntityRef :=
  let a := model.attributeAt id
  { id := ⟨.attribute, id⟩, name := a.name, container := a.container, signature := a.signature,
    path := a.path, node := a.node, span := a.span }

/-- The description of an entity. -/
def entityRef (id : EntityId) : EntityRef :=
  match id.kind with
  | .type => model.classRef id.index
  | .operation => model.operationRef id.index
  | .attribute => model.attributeRef id.index

end Model

end Reshape
