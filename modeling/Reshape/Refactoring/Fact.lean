import Reshape.Model.Entity
import Reshape.Refactoring.Group

/-! # Refactoring facts

A fact says what happened to entities between two versions of a program. -/

namespace Reshape

/-- What can happen to a single entity, without further details. -/
inductive EntityChange where
  | renameClass
  | moveClass
  | moveAndRenameClass
  | moveMethod
  | moveAndRenameMethod
  | pullUpMethod
  | pushDownMethod
  | renameAttribute
  | moveAttribute
  | pullUpAttribute
  | pushDownAttribute
  | changeAttributeType
  deriving Repr, DecidableEq, Inhabited

namespace EntityChange

/-- Every change of an entity, with its display name. -/
def names : List (EntityChange × String) :=
  [(renameClass, "Rename Class"), (moveClass, "Move Class"),
   (moveAndRenameClass, "Move And Rename Class"), (moveMethod, "Move Method"),
   (moveAndRenameMethod, "Move And Rename Method"), (pullUpMethod, "Pull Up Method"),
   (pushDownMethod, "Push Down Method"), (renameAttribute, "Rename Attribute"),
   (moveAttribute, "Move Attribute"), (pullUpAttribute, "Pull Up Attribute"),
   (pushDownAttribute, "Push Down Attribute"), (changeAttributeType, "Change Attribute Type")]

/-- The display name of a change. -/
def displayName (change : EntityChange) : String :=
  (names.lookup change).getD ""

/-- The group of a change. -/
def group : EntityChange → Group
  | renameClass | renameAttribute => .rename
  | moveClass | moveAndRenameClass | moveMethod | moveAndRenameMethod | moveAttribute => .move
  | pullUpMethod | pushDownMethod | pullUpAttribute | pushDownAttribute => .hierarchy
  | changeAttributeType => .variableChange

end EntityChange

/-- What can happen to the signature of an operation. -/
inductive ParameterChange where
  | add (parameter : Parameter)
  | remove (parameter : Parameter)
  | rename (old new : Parameter)
  | changeType (old new : Parameter)
  | reorder (old new : List String)
  | changeReturnType (old new : Option String)
  deriving Repr, DecidableEq

namespace ParameterChange

/-- The display name of a change. -/
def displayName : ParameterChange → String
  | add _ => "Add Parameter"
  | remove _ => "Remove Parameter"
  | rename _ _ => "Rename Parameter"
  | changeType _ _ => "Change Parameter Type"
  | reorder _ _ => "Reorder Parameter"
  | changeReturnType _ _ => "Change Return Type"

end ParameterChange

/-- What can happen to a local variable. -/
inductive VariableChange where
  | rename (old new : Variable)
  | extract (added : Variable)
  | inline (removed : Variable)
  | changeType (old new : Variable)
  deriving Repr, BEq

namespace VariableChange

/-- The display name of a change. -/
def displayName : VariableChange → String
  | rename _ _ => "Rename Variable"
  | extract _ => "Extract Variable"
  | inline _ => "Inline Variable"
  | changeType _ _ => "Change Variable Type"

end VariableChange

/-- What happened to entities between two versions. -/
inductive Fact where
  /-- An entity changed its name, its place or its type. -/
  | change (what : EntityChange) (before after : EntityRef)
  /-- A method got another name; `isPure` if its types and most of its body stayed. -/
  | renameMethod (before after : EntityRef) (bodySimilarity : Float) (isPure : Bool)
  /-- Part of a method became a method of its own, in another class if `moved`. -/
  | extractMethod (moved : Bool) (extracted sourceBefore sourceAfter : EntityRef)
  /-- A method was dissolved into one that called it, in another class if `moved`. -/
  | inlineMethod (moved : Bool) (inlined targetBefore targetAfter : EntityRef)
  /-- Several methods became one. -/
  | mergeMethod (merged : List EntityRef) (into : EntityRef)
  /-- One method became several. -/
  | splitMethod (split : EntityRef) (into : List EntityRef)
  /-- The signature of a method changed. -/
  | parameterChange (before after : EntityRef) (what : ParameterChange)
  /-- A local variable of a method changed. -/
  | variableChange (before after : EntityRef) (what : VariableChange)
  deriving Repr, BEq

namespace Fact

/-- The display name of a fact. -/
def displayName : Fact → String
  | change what _ _ => what.displayName
  | renameMethod .. => "Rename Method"
  | extractMethod moved .. => if moved then "Extract And Move Method" else "Extract Method"
  | inlineMethod moved .. => if moved then "Move And Inline Method" else "Inline Method"
  | mergeMethod .. => "Merge Method"
  | splitMethod .. => "Split Method"
  | parameterChange _ _ what => what.displayName
  | variableChange _ _ what => what.displayName

/-- The name of the type of a fact in data: the display name in lower case with underscores. -/
def typeName (displayName : String) : String :=
  String.ofList (displayName.toList.map fun c => if c == ' ' then '_' else c.toLower)

/-- The group of a fact. -/
def group : Fact → Group
  | change what _ _ => what.group
  | renameMethod .. => .rename
  | extractMethod .. | inlineMethod .. => .extractInline
  | mergeMethod .. | splitMethod .. => .mergeSplit
  | parameterChange .. => .parameterChange
  | variableChange .. => .variableChange

/-- The pairs of entities, before and after, that a fact relates. -/
def entityPairs : Fact → List (EntityRef × EntityRef)
  | change _ before after | renameMethod before after _ _ | parameterChange before after _
  | variableChange before after _ => [(before, after)]
  | extractMethod _ extracted sourceBefore _ => [(sourceBefore, extracted)]
  | inlineMethod _ inlined _ targetAfter => [(inlined, targetAfter)]
  | mergeMethod merged into => merged.map (·, into)
  | splitMethod split into => into.map (split, ·)

end Fact

end Reshape
