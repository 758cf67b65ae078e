import Reshape.Refactoring.Describe

/-! # Refactorings

A refactoring is a fact together with the fragments of code that it was inferred from. -/

namespace Reshape

/-- A fragment of code. -/
structure Fragment where
  path : Path
  node : Nat
  span : Span
  deriving Repr, Inhabited

namespace Fragment

/-- The fragment of a statement. -/
def ofStatement (path : Path) (statement : Statement) : Fragment :=
  ⟨path, statement.node, statement.span⟩

/-- The fragment that declares an entity. -/
def ofEntity (entity : EntityRef) : Fragment :=
  ⟨entity.path, entity.node, entity.span⟩

/-- The fragment that declares a variable. -/
def ofVariable (v : Variable) : Fragment :=
  ⟨v.path, v.node, v.span⟩

end Fragment

/-- Two fragments that support a fact. -/
structure FragmentPair where
  before : Fragment
  after : Fragment
  deriving Repr, Inhabited

/-- A fact and what supports it. -/
structure Refactoring where
  fact : Fact
  justification : List FragmentPair := []
  deriving Repr

namespace Refactoring

/-- The description of a refactoring. -/
def description (r : Refactoring) : String := r.fact.describe

/-- The group of a refactoring. -/
def group (r : Refactoring) : Group := r.fact.group

/-- Whether a refactoring relates entities of different files. -/
def isCrossFile (r : Refactoring) : Bool :=
  r.fact.entityPairs.any fun (before, after) => before.path != after.path

/-- A change of an entity that is supported by its declarations. -/
def ofDeclarations (what : EntityChange) (before after : EntityRef) : Refactoring where
  fact := .change what before after
  justification := [⟨.ofEntity before, .ofEntity after⟩]

end Refactoring

end Reshape
