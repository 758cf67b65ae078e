import Reshape.Refactoring.Comparison
import Reshape.Sequence.Overlap
import Reshape.Similarity
import Reshape.Text.Word

/-! # Extracted and inlined methods

A method was extracted if its caller lost a run of statements and gained a call of it, and its body,
with the arguments of the call put for its parameters, holds the lost statements. Inlining is the
same with the versions exchanged. -/

namespace Reshape

namespace Operation

/-- The parameters of an operation, bound to the arguments of a call. -/
def bindings (callee : Operation) (call : Invocation) : List Text.Binding :=
  (callee.parameters.zip call.arguments).map fun (parameter, argument) => ⟨parameter.name, argument⟩

/-- The texts of the body of an operation as a call sees them. -/
def boundTexts (callee : Operation) (call : Invocation) : List String :=
  callee.statementTexts.map (Text.substitute · (callee.bindings call))

/-- The places of the statements that an operation shares in order with another one. -/
def keptPlaces (host other : Operation) : List Nat :=
  (host.alignment other).map (·.1)

/-- The statements of an operation that are not shared in order with another one, with their
places. -/
def lostTexts (host other : Operation) : List (String × Nat) :=
  host.statementTexts.zipIdx.filter fun (_, i) => !(host.keptPlaces other).contains i

/-- Statements of the callee's body, found among the lost statements of the host. -/
def foundPlaces (callee : Operation) (call : Invocation) (host other : Operation) :
    List (Nat × Nat) :=
  Sequence.firstCome (callee.boundTexts call) (host.lostTexts other)

/-- Whether no kept statement stands between the first and the last of some places. -/
def isUnbroken (kept places : List Nat) : Bool :=
  kept.all fun k => !(places.any (· ≤ k) && places.any (k ≤ ·))

/-- The statements of the callee's body with their places in the host, if enough of them are found
and they form an unbroken run. -/
def relocated? (callee : Operation) (call : Invocation) (host other : Operation)
    (threshold : Float) :
    Option (List (Nat × Nat)) :=
  let found := callee.foundPlaces call host other
  let share := Similarity.ratio found.length callee.statements.length
  if found.isEmpty || share < threshold
      || !isUnbroken (host.keptPlaces other) (found.map (·.2)) then
    none
  else some found

/-- The first call of an operation of a name, if there are more of them than in another
operation. -/
def extraCall? (caller other : Operation) (name : String) : Option Invocation :=
  if (other.callsOf name).length < (caller.callsOf name).length then (caller.callsOf name).head?
  else none

/-- Whether two operations of one version share their container. -/
def neighbours (x y : Operation) : Bool :=
  x.owner.isSome == y.owner.isSome && x.container == y.container

end Operation

namespace Comparison

variable (c : Comparison)

/-- The extraction of an operation from a caller. -/
def extraction? (extracted b a : Operation) : Option Refactoring :=
  if extracted.statements.isEmpty then none
  else do
    let call ← a.extraCall? b extracted.name
    let found ← extracted.relocated? call b a c.thresholds.extractOverlap
    return {
      fact := .extractMethod (!extracted.neighbours a) (c.after.operationRef extracted.id)
        (c.before.operationRef b.id) (c.after.operationRef a.id)
      justification := found.map fun (body, host) => b.fragmentPair extracted (host, body) }

/-- The inlining of an operation into its caller. -/
def inlining? (inlined b a : Operation) : Option Refactoring :=
  if inlined.statements.isEmpty then none
  else do
    let call ← b.extraCall? a inlined.name
    let found ← inlined.relocated? call a b c.thresholds.extractOverlap
    return {
      fact := .inlineMethod (!inlined.neighbours b) (c.before.operationRef inlined.id)
        (c.before.operationRef b.id) (c.after.operationRef a.id)
      justification := found.map fun (body, host) => inlined.fragmentPair a (body, host) }

/-- All extractions. -/
def extractions : List Refactoring :=
  c.addedOperations.flatMap fun op =>
    c.operationPairs.filterMap fun (b, a) => c.extraction? op b a

/-- All inlinings. -/
def inlinings : List Refactoring :=
  c.removedOperations.flatMap fun op =>
    c.operationPairs.filterMap fun (b, a) => c.inlining? op b a

end Comparison

end Reshape
