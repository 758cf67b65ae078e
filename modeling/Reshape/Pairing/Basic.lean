/-! # Pairings of entities

A pairing says which entities of one version of a program are the same as which of another version.
Entities are given by their numbers. What is in no pair has been removed or added. -/

namespace Reshape

/-- An entity of the version before and its partner in the version after. -/
structure Pair where
  before : Nat
  after : Nat
  score : Float
  deriving Repr, DecidableEq, Inhabited

/-- The pairing of the entities of one kind. -/
structure KindPairing where
  /-- The pairs, ascending. -/
  pairs : List Pair := []
  /-- The entities that are only in the version before, ascending. -/
  removed : List Nat := []
  /-- The entities that are only in the version after, ascending. -/
  added : List Nat := []
  deriving Repr, DecidableEq, Inhabited

namespace KindPairing

/-- The pairing of `before` and `after` many entities given by its pairs. -/
def ofPairs (before after : Nat) (pairs : List Pair) : KindPairing where
  pairs
  removed := (List.range before).filter fun id => !pairs.any (·.before == id)
  added := (List.range after).filter fun id => !pairs.any (·.after == id)

/-- The partner of an entity of the version before. -/
def after? (pairing : KindPairing) (before : Nat) : Option Nat :=
  (pairing.pairs.find? (·.before == before)).map (·.after)

/-- The partner of an entity of the version after. -/
def before? (pairing : KindPairing) (after : Nat) : Option Nat :=
  (pairing.pairs.find? (·.after == after)).map (·.before)

end KindPairing

/-- The pairing of all entities of two versions. -/
structure Pairing where
  classes : KindPairing := {}
  operations : KindPairing := {}
  attributes : KindPairing := {}
  deriving Repr, DecidableEq, Inhabited

end Reshape
