import Reshape.Violation
import Std.Data.TreeMap

/-! # Mappings between the nodes of two trees

A mapping pairs nodes of a source tree with nodes of a target tree, each node at most once. It is
kept as two maps, one in each direction. A pair is added only if both nodes are free or the pair is
there already; anything else is a violation and leaves the mapping as it is. -/

namespace Reshape

/-- A partial one-to-one pairing of source nodes with target nodes. -/
structure Mapping where
  forward : Std.TreeMap Nat Nat := ∅
  backward : Std.TreeMap Nat Nat := ∅

namespace Mapping

instance : Inhabited Mapping := ⟨{}⟩

/-- The mapping without pairs. -/
def empty : Mapping := {}

variable (mapping : Mapping)

/-- The target node paired with a source node. -/
def target? (source : Nat) : Option Nat :=
  mapping.forward[source]?

/-- The source node paired with a target node. -/
def source? (target : Nat) : Option Nat :=
  mapping.backward[target]?

/-- Whether a source node has a partner. -/
def hasSource (source : Nat) : Bool :=
  (mapping.target? source).isSome

/-- Whether a target node has a partner. -/
def hasTarget (target : Nat) : Bool :=
  (mapping.source? target).isSome

/-- Whether two nodes are paired with each other. -/
def has (source target : Nat) : Bool :=
  mapping.target? source == some target

/-- The pairs in the order of their source nodes. -/
def pairs : List (Nat × Nat) :=
  mapping.forward.toList

/-- The number of pairs. -/
def size : Nat :=
  mapping.forward.size

/-- Whether there is no pair. -/
def isEmpty : Bool :=
  mapping.forward.isEmpty

/-- The mapping with one more pair, whatever it held before. -/
def insert (source target : Nat) : Mapping where
  forward := mapping.forward.insert source target
  backward := mapping.backward.insert target source

/-- A mapping after an addition, with the violation if there was one. -/
abbrev Outcome := Mapping × Option Violation

/-- The mapping for those who do not go on after a violation. -/
def Outcome.toExcept : Outcome → Except Violation Mapping
  | (mapping, none) => .ok mapping
  | (_, some violation) => .error violation

/-- Add a pair, unless one of its nodes has another partner. -/
def add (source target : Nat) : Outcome :=
  match mapping.target? source, mapping.source? target with
  | none, none => (mapping.insert source target, none)
  | t, s =>
    if t = some target ∧ s = some source then (mapping, none)
    else (mapping, some (.alreadyMapped source target t s))

/-- Add pairs one by one up to the first violation. The pairs before it stay. -/
def addPairs (mapping : Mapping) : List (Nat × Nat) → Outcome
  | [] => (mapping, none)
  | (source, target) :: rest =>
    match mapping.add source target with
    | (mapping, none) => mapping.addPairs rest
    | refused => refused

/-- Add pairs one by one; a violation is the result. -/
def addAll (pairs : List (Nat × Nat)) : Except Violation Mapping :=
  (mapping.addPairs pairs).toExcept

/-- A mapping with a pair of another mapping taken over if both nodes are free, and the number of
pairs that could not be taken. -/
def absorb : Mapping × Nat → Nat × Nat → Mapping × Nat
  | (mapping, dropped), (source, target) =>
    if mapping.has source target then (mapping, dropped)
    else if mapping.hasSource source || mapping.hasTarget target then (mapping, dropped + 1)
    else (mapping.insert source target, dropped)

/-- Take over the pairs of another mapping whose nodes are free. Gives the number of pairs that are
not taken. -/
def merge (mapping other : Mapping) : Mapping × Nat :=
  other.pairs.foldl absorb (mapping, 0)

end Mapping

end Reshape
