import Reshape.Model.Basic
import Reshape.Pairing.Basic
import Reshape.Refactoring.Basic
import Reshape.Sequence.Alignment
import Reshape.Thresholds

/-! # What detectors look at

Detectors compare two models whose entities have been paired. -/

namespace Reshape

/-- Two models with the pairing of their entities. -/
structure Comparison where
  before : Model
  after : Model
  pairing : Pairing
  thresholds : Thresholds := {}

namespace Comparison

variable (c : Comparison)

/-- Whether a class before is paired with a class after. -/
def sameClass (before after : Nat) : Bool :=
  c.pairing.classes.after? before == some after

/-- Whether two operations live in one container, which may have another name by now. -/
def sameContainer (b a : Operation) : Bool :=
  match b.owner, a.owner with
  | some bc, some ac => c.sameClass bc ac
  | none, none => b.container == a.container
  | _, _ => false

/-- The paired classes. -/
def classPairs : List (Class × Class) :=
  c.pairing.classes.pairs.map fun p => (c.before.classAt p.before, c.after.classAt p.after)

/-- The paired operations. -/
def operationPairs : List (Operation × Operation) :=
  c.pairing.operations.pairs.map fun p =>
    (c.before.operationAt p.before, c.after.operationAt p.after)

/-- The paired attributes. -/
def attributePairs : List (Attribute × Attribute) :=
  c.pairing.attributes.pairs.map fun p =>
    (c.before.attributeAt p.before, c.after.attributeAt p.after)

/-- The operations that are only in the version before. -/
def removedOperations : List Operation :=
  c.pairing.operations.removed.map c.before.operationAt

/-- The operations that are only in the version after. -/
def addedOperations : List Operation :=
  c.pairing.operations.added.map c.after.operationAt

/-- The descriptions of two classes. -/
def classRefs (b a : Class) : EntityRef × EntityRef :=
  (c.before.classRef b.id, c.after.classRef a.id)

/-- The descriptions of two operations. -/
def operationRefs (b a : Operation) : EntityRef × EntityRef :=
  (c.before.operationRef b.id, c.after.operationRef a.id)

/-- The descriptions of two attributes. -/
def attributeRefs (b a : Attribute) : EntityRef × EntityRef :=
  (c.before.attributeRef b.id, c.after.attributeRef a.id)

end Comparison

namespace Operation

/-- Statements of two operations, given by their places, as fragments. -/
def fragmentPair (b a : Operation) (places : Nat × Nat) : FragmentPair where
  before := .ofStatement b.path (b.statements.getD places.1 default)
  after := .ofStatement a.path (a.statements.getD places.2 default)

/-- A longest alignment of the statements of two operations by text. -/
def alignment (b a : Operation) : List (Nat × Nat) :=
  Sequence.align (fun x y => x == y) b.statementTexts a.statementTexts

/-- The statements that two operations share, in order. -/
def sharedInOrder (b a : Operation) : List FragmentPair :=
  (alignment b a).map (fragmentPair b a)

end Operation

end Reshape
