import Reshape.Pairing
import Reshape.Refactoring.Detect

/-! # Differences of two models

Two models are compared by pairing their entities and detecting refactorings. -/

namespace Reshape

/-- Two entities that are the same. -/
structure EntityPair where
  before : EntityRef
  after : EntityRef
  score : Float
  deriving Repr, Inhabited

/-- What differs between two models. -/
structure ModelDiff where
  refactorings : List Refactoring
  /-- The paired entities: classes, then operations, then attributes. -/
  matched : List EntityPair
  added : List EntityRef
  removed : List EntityRef
  pairing : Pairing

namespace ModelDiff

/-- The descriptions of the pairs of one kind. -/
def matchedOf (before after : Model) (kind : EntityKind) (pairs : List Pair) : List EntityPair :=
  pairs.map fun p => ⟨before.entityRef ⟨kind, p.before⟩, after.entityRef ⟨kind, p.after⟩, p.score⟩

/-- The descriptions of entities of one kind. -/
def refsOf (model : Model) (kind : EntityKind) (ids : List Nat) : List EntityRef :=
  ids.map fun id => model.entityRef ⟨kind, id⟩

/-- What differs between two models under a scoring. -/
def computeBy (scoring : Scoring) (thresholds : Thresholds) (before after : Model) : ModelDiff :=
  let thresholds := thresholds.clamped
  let pairing := Pairing.ofModels scoring thresholds before after
  { refactorings := Comparison.refactorings { before, after, pairing, thresholds }
    matched := matchedOf before after .type pairing.classes.pairs
      ++ matchedOf before after .operation pairing.operations.pairs
      ++ matchedOf before after .attribute pairing.attributes.pairs
    added := refsOf after .type pairing.classes.added
      ++ refsOf after .operation pairing.operations.added
      ++ refsOf after .attribute pairing.attributes.added
    removed := refsOf before .type pairing.classes.removed
      ++ refsOf before .operation pairing.operations.removed
      ++ refsOf before .attribute pairing.attributes.removed
    pairing }

/-- What differs between two models. -/
def compute (thresholds : Thresholds) (before after : Model) : ModelDiff :=
  computeBy .standard thresholds before after

variable (diff : ModelDiff)

/-- Whether nothing differs. -/
def isEmpty : Bool :=
  diff.refactorings.isEmpty && diff.added.isEmpty && diff.removed.isEmpty

/-- The places of the refactorings that relate an entity of one file to one of another file. -/
def refactoringsBetween (source target : Path) : List Nat :=
  (diff.refactorings.zipIdx.filter fun (r, _) =>
    r.fact.entityPairs.any fun (b, a) => b.path == source && a.path == target).map (·.2)

/-- The refactorings that relate entities of different files. -/
def crossFile : List Refactoring :=
  diff.refactorings.filter Refactoring.isCrossFile

/-- The partner of an entity before. -/
def partnerOf? (before : EntityId) : Option EntityRef :=
  (diff.matched.find? (·.before.id == before)).map (·.after)

end ModelDiff

end Reshape
