import Reshape.Pairing.Candidate
import Reshape.Pairing.Score
import Reshape.Thresholds

/-! # Pairing two models

Entities with the same key are the same. The others are paired by score, in rounds: first within
classes that are paired, then anywhere. A pair needs a score that reaches the threshold of its
kind. -/

namespace Reshape.Pairing

/-- What pairing has to know about the entities of one kind. -/
structure View (α : Type) where
  id : α → Nat
  name : α → String
  path : α → Path
  /-- What makes two entities the same. -/
  key : α → String × String
  /-- How alike two entities are. -/
  score : α → α → Float
  /-- The least score of a pair. -/
  threshold : Float

namespace View

variable {α : Type} (view : View α)

/-- Pair the first entities of every key; `seen` holds the keys met so far. -/
def exactFrom (after : List α) (seen : List (String × String)) : List α → List Pair
  | [] => []
  | b :: rest =>
    let later := exactFrom after (view.key b :: seen) rest
    if seen.contains (view.key b) then later
    else
      match after.find? fun a => view.key a == view.key b with
      | some a => ⟨view.id b, view.id a, 1.0⟩ :: later
      | none => later

/-- The candidate of two entities, if their score reaches the threshold. -/
def candidate? (b a : α) : Option Candidate :=
  let score := view.score b a
  if view.threshold ≤ score then
    some
      { before := view.id b
        after := view.id a
        score
        sameFile := view.path b == view.path a
        nameDistance := Text.editDistance (view.name b) (view.name a) }
  else none

/-- The candidates among entities that are in no pair yet and satisfy a relation. -/
def candidates (related : α → α → Bool) (before after : List α) (pairs : List Pair) :
    List Candidate :=
  let bs := before.filter fun b => !pairs.any (·.before == view.id b)
  let as := after.filter fun a => !pairs.any (·.after == view.id a)
  bs.flatMap fun b => (as.filter (related b)).filterMap (view.candidate? b)

/-- One round: the best candidates that satisfy a relation become pairs. -/
def round (before after : List α) (pairs : List Pair) (related : α → α → Bool) : List Pair :=
  pairs ++ (Candidate.accept (view.candidates related before after pairs)).map Candidate.pair

/-- The order of pairs. -/
def precedes (p q : Pair) : Bool :=
  p.before < q.before || (p.before == q.before && p.after ≤ q.after)

/-- Pair entities by key, then in one round for every relation. -/
def pairUp (rounds : List (α → α → Bool)) (before after : Array α) : KindPairing :=
  let pairs := rounds.foldl (view.round before.toList after.toList)
    (view.exactFrom after.toList [] before.toList)
  .ofPairs before.size after.size (pairs.mergeSort precedes)

end View

/-- How classes are paired. -/
def classView (scoring : Scoring) (thresholds : Thresholds) (before after : Model) :
    View Class where
  id := (·.id)
  name := (·.name)
  path := (·.path)
  key c := (c.qualifiedName, "")
  score := scoring.classes before after
  threshold := thresholds.classMatch

/-- How operations are paired. -/
def operationView (scoring : Scoring) (thresholds : Thresholds) : View Operation where
  id := (·.id)
  name := (·.name)
  path := (·.path)
  key := Operation.exactKey
  score := scoring.operations
  threshold := thresholds.operationMatch

/-- How attributes are paired. -/
def attributeView (scoring : Scoring) (thresholds : Thresholds) : View Attribute where
  id := (·.id)
  name := (·.name)
  path := (·.path)
  key a := (a.qualifiedName, "")
  score := scoring.attributes
  threshold := thresholds.attributeMatch

/-- Whether two classes are a pair. -/
def hasPair (classes : KindPairing) (before after : Nat) : Bool :=
  classes.pairs.any fun p => p.before == before && p.after == after

/-- Whether two operations belong to a pair of classes, or to no class and one container. -/
def sameHome (classes : KindPairing) (b a : Operation) : Bool :=
  match b.owner, a.owner with
  | some bc, some ac => hasPair classes bc ac
  | none, none => b.container == a.container
  | _, _ => false

/-- Pair the entities of two models by a scoring. -/
def ofModels (scoring : Scoring) (thresholds : Thresholds) (before after : Model) : Pairing :=
  let classes := (classView scoring thresholds before after).pairUp [fun _ _ => true]
    before.classes after.classes
  let operations := (operationView scoring thresholds).pairUp [sameHome classes, fun _ _ => true]
    before.operations after.operations
  let attributes := (attributeView scoring thresholds).pairUp
    [fun b a => hasPair classes b.owner a.owner, fun b a => b.name == a.name]
    before.attributes after.attributes
  { classes, operations, attributes }

end Reshape.Pairing
