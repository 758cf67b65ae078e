import Reshape.Refactoring.Comparison

/-! # Changes of signatures

Parameters of one name on both sides are the same. Of the others, a removed and an added parameter
of one type are one parameter that was renamed, preferably at the same place; what is left was
removed or added. -/

namespace Reshape

namespace ParameterChange

/-- The parameters that keep their names, with their new versions. -/
def common (old new : List Parameter) : List (Parameter × Parameter) :=
  old.filterMap fun p => (new.find? (·.name == p.name)).map (p, ·)

/-- The parameters of one list whose names the other list lacks, with their places. -/
def missingFrom (others parameters : List Parameter) : List (Parameter × Nat) :=
  parameters.zipIdx.filter fun (p, _) => !others.any (·.name == p.name)

/-- The added parameter that a removed one became: of its type, at its place if possible. -/
def successor? (added : List (Parameter × Nat)) (old : Parameter) (place : Nat) :
    Option (Parameter × Nat) :=
  let candidates := added.filter fun (p, _) => p.typeName == old.typeName
  (candidates.find? (·.2 == place)).or candidates.head?

/-- What became of removed and added parameters. -/
structure Outcome where
  renamed : List (Parameter × Parameter) := []
  removed : List Parameter := []
  added : List Parameter := []
  deriving Repr, DecidableEq

/-- Take removed parameters in order, each with the added one that it became. -/
def pairOff : List (Parameter × Nat) → List (Parameter × Nat) → Outcome
  | [], added => { added := added.map (·.1) }
  | (old, place) :: rest, added =>
    match successor? added old place with
    | some (new, taken) =>
      let outcome := pairOff rest (added.filter (·.2 != taken))
      { outcome with renamed := (old, new) :: outcome.renamed }
    | none =>
      let outcome := pairOff rest added
      { outcome with removed := old :: outcome.removed }

/-- The changes of types of parameters that keep their names. -/
def typeChanges (shared : List (Parameter × Parameter)) : List ParameterChange :=
  (shared.filter fun (old, new) => old.typeName != new.typeName).map fun (old, new) =>
    changeType old new

/-- The change of the order of parameters that keep their names. -/
def reorder? (shared : List (Parameter × Parameter)) (new : List Parameter) :
    Option ParameterChange :=
  let oldOrder := shared.map (·.1.name)
  let newOrder := (new.map (·.name)).filter oldOrder.contains
  if 2 ≤ shared.length && oldOrder != newOrder then some (reorder oldOrder newOrder) else none

/-- The changes between two parameter lists. -/
def ofParameters (old new : List Parameter) : List ParameterChange :=
  let shared := common old new
  let outcome := pairOff (missingFrom new old) (missingFrom old new)
  typeChanges shared ++ outcome.renamed.map (fun (p, q) => rename p q)
    ++ outcome.removed.map remove ++ outcome.added.map add ++ (reorder? shared new).toList

/-- The changes between the signatures of two operations. -/
def ofOperations (b a : Operation) : List ParameterChange :=
  ofParameters b.parameters a.parameters
    ++ if b.returnType == a.returnType then [] else [changeReturnType b.returnType a.returnType]

end ParameterChange

namespace Comparison

variable (c : Comparison)

/-- The changes of the signature of one operation. -/
def signatureChanges (b a : Operation) : List Refactoring :=
  let (before, after) := c.operationRefs b a
  (ParameterChange.ofOperations b a).map fun what =>
    { fact := .parameterChange before after what, justification := b.sharedInOrder a }

/-- All changes of signatures. -/
def parameterChanges : List Refactoring :=
  c.operationPairs.flatMap fun (b, a) => c.signatureChanges b a

end Comparison

end Reshape
