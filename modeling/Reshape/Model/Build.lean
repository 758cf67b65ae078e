import Reshape.Model.Basic
import Reshape.Model.Statement

/-! # The model of a set of files

The declarations of a file are visited in preorder. Members belong to the innermost class around
them; what is declared within the body of an operation is no member of anything. Declarations
without a name are left out, with all that they hold. -/

namespace Reshape.Model

variable (tree : Tree)

/-- The compact text of the child that plays a role. -/
def textOfRole? (id : Nat) (role : Role) : Option String :=
  (tree.childWithRole? id role).map tree.compactText

/-- The label of the child that is the name. -/
def nameOf? (id : Nat) : Option String :=
  (tree.childWithRole? id .name).map tree.label

/-- Whether a node below a declaration declares no names: types, values, calls, modifiers and
annotations. -/
def declaresNothing (id : Nat) : Bool :=
  tree.role id == some .type || tree.role id == some .value || tree.category id == .invocation
    || Text.includes (tree.kind id) "modifier" || Text.includes (tree.kind id) "annotation"

/-- The name that a node itself declares. -/
def ownName (id : Nat) : List (String × Nat) :=
  if tree.category id == .identifier && tree.kind id == "identifier" then [(tree.label id, id)]
  else []

mutual

/-- The names declared in a subtree below a declaration, with their nodes. -/
def namesWithin : Rose Nat → List (String × Nat)
  | .node id below =>
    if declaresNothing tree id then [] else ownName tree id ++ namesWithinAll below

/-- The names declared in a list of subtrees below a declaration. -/
def namesWithinAll : List (Rose Nat) → List (String × Nat)
  | [] => []
  | subtree :: rest => namesWithin subtree ++ namesWithinAll rest

end

/-- The names that a declaration introduces, with their nodes. -/
def declaredNames (id : Nat) : List (String × Nat) :=
  ownName tree id ++ namesWithinAll tree (tree.subtree id).children

mutual

/-- The simple type names of a subtree of a supertype clause. Type arguments are left out. -/
def typeNamesWithin : Rose Nat → List String
  | .node id below =>
    if Text.includes (tree.kind id) "type_arguments" || tree.kind id == "keyword_argument" then []
    else if tree.category id == .identifier then [tree.label id]
    else typeNamesWithinAll below

/-- The simple type names of a list of subtrees. -/
def typeNamesWithinAll : List (Rose Nat) → List String
  | [] => []
  | subtree :: rest => typeNamesWithin subtree ++ typeNamesWithinAll rest

end

/-- The names of the direct supertypes of a class, superclass first. -/
def supertypesOf (id : Nat) : List String :=
  let clauses := fun role => (tree.children id).filter fun child => tree.role child == some role
  (clauses .superclass ++ clauses .interfaces).flatMap fun clause =>
    typeNamesWithin tree (tree.subtree clause)

/-- The parameter that a node declares. -/
def parameter? (id : Nat) : Option Parameter :=
  (declaredNames tree id).head?.map fun (name, _) =>
    let spread :=
      if tree.kind id == "spread_parameter" then
        (tree.children id).head?.map fun type => tree.compactText type ++ "..."
      else none
    { name, typeName := (textOfRole? tree id .type).or spread, node := id }

/-- Whether a parameter is the receiver of a method. -/
def isReceiver (parameter : Parameter) : Bool :=
  parameter.typeName.isNone && (parameter.name == "self" || parameter.name == "cls")

/-- The parameters of an operation; the receiver of a method is left out. -/
def parametersOf (id : Nat) (owner : Option Nat) : List Parameter :=
  let parameters := match tree.childWithRole? id .parameters with
    | none => []
    | some list =>
      ((tree.children list).filter fun child => tree.category child == .parameter).filterMap
        (parameter? tree)
  if owner.isSome && parameters.head?.any isReceiver then parameters.drop 1 else parameters

/-- The variables that a statement of an operation declares. -/
def variablesAt (operation : Nat) (statement : Statement) : List Variable :=
  if tree.category statement.node == .variableDeclaration then
    (declaredNames tree statement.node).map fun (name, node) =>
      { name
        typeName := textOfRole? tree statement.node .type
        initializer := (tree.parent node).bind fun declarator => textOfRole? tree declarator .value
        operation
        path := tree.path
        node
        span := tree.span statement.node }
  else []

/-- The operation that a node declares. -/
def operation? (id : Nat) (container : String) (owner : Option Nat) (number : Nat) :
    Option Operation :=
  (nameOf? tree id).map fun name =>
    let body := tree.childWithRole? id .body
    { id := number
      name
      owner
      container
      path := tree.path
      node := id
      span := tree.span id
      parameters := parametersOf tree id owner
      returnType := textOfRole? tree id .type
      body
      statements := (body.map (Statement.ofBody tree)).getD [] }

/-- Add the operation that a node declares, and its variables. -/
def addOperation (model : Model) (id : Nat) (container : String) (owner : Option Nat) : Model :=
  match operation? tree id container owner model.operations.size with
  | none => model
  | some op =>
    { model with
      operations := model.operations.push op
      locals := model.locals ++ op.statements.flatMap (variablesAt tree op.id) }

/-- The attributes that a node declares. -/
def attributesAt (id : Nat) (container : String) (owner number : Nat) : List Attribute :=
  let type := (tree.preorder id).find? fun node => tree.role node == some .type
  (declaredNames tree id).zipIdx.map fun ((name, _), place) =>
    { id := number + place
      name
      typeName := type.map tree.compactText
      owner
      container
      path := tree.path
      node := id
      span := tree.span id }

/-- Add the attributes that a node declares in a class. -/
def addAttributes (model : Model) (id : Nat) (container : String) (owner : Nat) : Model :=
  { model with
    attributes := model.attributes ++ attributesAt tree id container owner model.attributes.size }

/-- The class that a node declares. -/
def class? (id : Nat) (container : String) (outer : Option Nat) (number : Nat) : Option Class :=
  (nameOf? tree id).map fun name =>
    { id := number
      name
      container
      path := tree.path
      node := id
      span := tree.span id
      supertypes := supertypesOf tree id
      outer }

mutual

/-- Add the declarations of a subtree. The container and the owner are those around it. -/
def addSubtree (model : Model) (container : String) (owner : Option Nat) : Rose Nat → Model
  | .node id below =>
    match tree.category id with
    | .typeDeclaration =>
      match class? tree id container owner model.classes.size with
      | none => model
      | some c =>
        addBody { model with classes := model.classes.push c } c.qualifiedName (some c.id)
          (tree.childWithRole? id .body) below
    | .operation => addOperation tree model id container owner
    | .attribute =>
      match owner with
      | some owner => addAttributes tree model id container owner
      | none => model
    | _ => addSubtrees model container owner below

/-- Add the declarations of a list of subtrees. -/
def addSubtrees (model : Model) (container : String) (owner : Option Nat) : List (Rose Nat) → Model
  | [] => model
  | subtree :: rest => addSubtrees (addSubtree model container owner subtree) container owner rest

/-- Add the declarations below the body among the children of a class. -/
def addBody (model : Model) (container : String) (owner : Option Nat) (body : Option Nat) :
    List (Rose Nat) → Model
  | [] => model
  | .node id below :: rest =>
    if some id = body then addSubtrees model container owner below
    else addBody model container owner body rest

end

/-- The package of a file, if it declares one. -/
def package? : Option String :=
  ((tree.children tree.root).find? fun id => tree.kind id == "package_declaration").map fun id =>
    match (tree.children id).find? fun child => !Text.includes (tree.kind child) "annotation" with
    | some name => tree.compactText name
    | none => ""

/-- The dotted name of the module that a path stands for. -/
def moduleOfPath (path : Path) : String :=
  let parts := path.stemComponents.map PathComponent.text
  ".".intercalate (parts.filter fun part => part != "." && part != "__init__")

/-- The package or module that the declarations of a file belong to. -/
def moduleName : String :=
  match package? tree with
  | some package => package
  | none =>
    match tree.path.extension? with
    | some "py" | some "pyi" => moduleOfPath tree.path
    | _ => ""

/-- Give every class the lists of its members. -/
def withMembers (model : Model) : Model :=
  { model with
    classes := model.classes.map fun c =>
      { c with
        operations := (model.operations.toList.filter (·.owner == some c.id)).map (·.id)
        attributes := (model.attributes.toList.filter (·.owner == c.id)).map (·.id) } }

/-- The model of one file. -/
def ofTree : Model :=
  withMembers (addSubtrees tree empty (moduleName tree) none (tree.subtree tree.root).children)

/-- The model of a list of files, in the order given. -/
def ofTrees (trees : List Tree) : Model :=
  (trees.map ofTree).foldl append empty

end Reshape.Model
