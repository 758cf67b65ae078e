import Reshape.Refactoring.Basic

/-! # Conflicts between refactorings

Detectors may classify one pair of entities in several ways. The classification of the strongest
group reserves the pair; those of groups that it excludes are dropped. -/

namespace Reshape.Refactoring

/-- Whether a refactoring is listed no later than another one: by group, then by description. -/
def listedFirst (a b : Refactoring) : Bool :=
  a.group.rank < b.group.rank || (a.group.rank == b.group.rank && a.description ≤ b.description)

/-- A pair of entities by their numbers. -/
abbrev PairKey := EntityId × EntityId

/-- The pairs of entities that a refactoring relates. -/
def keys (r : Refactoring) : List PairKey :=
  r.fact.entityPairs.map fun (before, after) => (before.id, after.id)

/-- The reservations on pairs of entities, with the group that made each. -/
abbrev Reservations := List (PairKey × Group)

/-- Whether a reservation excludes a refactoring. -/
def isExcluded (reservations : Reservations) (r : Refactoring) : Bool :=
  r.keys.any fun key => (reservations.lookup key).any (·.excludes r.group)

/-- Reserve a pair, unless it is reserved already. -/
def reserve (group : Group) (reservations : Reservations) (key : PairKey) : Reservations :=
  if (reservations.lookup key).isSome then reservations else reservations ++ [(key, group)]

/-- The refactorings that no reservation excludes, given the reservations so far. -/
def resolveFrom (reservations : Reservations) : List Refactoring → List Refactoring
  | [] => []
  | r :: rest =>
    if isExcluded reservations r then resolveFrom reservations rest
    else r :: resolveFrom (r.keys.foldl (reserve r.group) reservations) rest

/-- Keep one classification for every pair of entities, by rank of the groups. -/
def resolve (refactorings : List Refactoring) : List Refactoring :=
  resolveFrom [] (refactorings.mergeSort listedFirst)

end Reshape.Refactoring
