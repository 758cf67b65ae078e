import Reshape.Refactoring.Comparison

/-! # Moves

A member that left its class was pulled up if it went to a supertype, pushed down if it went to a
subtype, and moved otherwise. When a method is pulled up, the copies of it that siblings of its
class lost were pulled up with it. -/

namespace Reshape

/-- How the new class of a member relates to its old one. -/
inductive Direction where
  | up
  | down
  | across
  deriving Repr, DecidableEq

namespace Comparison

variable (c : Comparison)

/-- The class after that a class before became. -/
def classAfter? (id : Nat) : Option Class :=
  (c.pairing.classes.after? id).map c.after.classAt

/-- Whether a class before has a supertype of a name, before or after. -/
def hadSupertype (id : Nat) (name : String) : Bool :=
  (c.before.classAt id).hasSupertype name || (c.classAfter? id).any (·.hasSupertype name)

/-- Whether a class after has a class before as supertype, by its old or its new name. -/
def isSubtypeOf (after : Class) (before : Nat) : Bool :=
  (c.classAfter? before).any (fun now => after.hasSupertype now.name)
    || after.hasSupertype (c.before.classAt before).name

/-- The direction from a class before to a class after. -/
def direction (source target : Option Nat) : Direction :=
  match source, target with
  | some source, some target =>
    if c.hadSupertype source (c.after.classAt target).name then .up
    else if c.isSubtypeOf (c.after.classAt target) source then .down
    else .across
  | _, _ => .across

/-- The move of a class: it keeps its name, and its container changes. -/
def classMove? (b a : Class) : Option Refactoring :=
  if (b.container == a.container && b.path == a.path) || b.qualifiedName == a.qualifiedName
      || b.name != a.name then none
  else
    let (before, after) := c.classRefs b a
    some (.ofDeclarations .moveClass before after)

/-- What happened to a method that left its container. -/
def methodMoveKind (b a : Operation) : EntityChange :=
  match c.direction b.owner a.owner with
  | .up => .pullUpMethod
  | .down => .pushDownMethod
  | .across => if b.name == a.name then .moveMethod else .moveAndRenameMethod

/-- A change of a method that is supported by the statements it kept. -/
def methodChange (what : EntityChange) (b a : Operation) : Refactoring where
  fact := .change what (c.operationRefs b a).1 (c.operationRefs b a).2
  justification := b.sharedInOrder a

/-- The paired methods that left their containers. -/
def movedMethods : List (Operation × Operation) :=
  c.operationPairs.filter fun (b, a) => !c.sameContainer b a

/-- The signatures of the methods that were pulled up, each with the class it went to. -/
def pulledUp : List (String × Nat) :=
  c.movedMethods.filterMap fun (b, a) =>
    if c.methodMoveKind b a = .pullUpMethod then a.owner.map (b.signatureKey, ·) else none

/-- The order of signatures and classes. -/
def pulledFirst (x y : String × Nat) : Bool :=
  x.1 < y.1 || (x.1 == y.1 && x.2 ≤ y.2)

/-- The methods pulled up, in order and each once. -/
def pullTargets : List (String × Nat) :=
  (c.pulledUp.eraseDups).mergeSort pulledFirst

/-- Whether an operation before was a member of a class with a supertype of a name. -/
def isMemberBelow (op : Operation) (name : String) : Bool :=
  op.owner.any fun owner => c.hadSupertype owner name

/-- The copies that went into a method that was pulled up to a class. -/
def pulledCopies (signature : String) (target : Nat) : List Refactoring :=
  let home := c.after.classAt target
  match (home.operations.map c.after.operationAt).find? (·.signatureKey == signature) with
  | none => []
  | some targetOp =>
    let copies := c.removedOperations.filter fun op =>
      op.signatureKey == signature && c.isMemberBelow op home.name
    copies.map fun op => c.methodChange .pullUpMethod op targetOp

/-- The move of an attribute that left its class. -/
def attributeMove? (b a : Attribute) : Option Refactoring :=
  if c.sameClass b.owner a.owner then none
  else
    let (before, after) := c.attributeRefs b a
    let what := match c.direction (some b.owner) (some a.owner) with
      | .up => .pullUpAttribute
      | .down => .pushDownAttribute
      | .across => .moveAttribute
    some (.ofDeclarations what before after)

/-- All moves. -/
def moves : List Refactoring :=
  c.classPairs.filterMap (fun (b, a) => c.classMove? b a)
    ++ c.movedMethods.map (fun (b, a) => c.methodChange (c.methodMoveKind b a) b a)
    ++ c.pullTargets.flatMap (fun (signature, target) => c.pulledCopies signature target)
    ++ c.attributePairs.filterMap (fun (b, a) => c.attributeMove? b a)

end Comparison

end Reshape
