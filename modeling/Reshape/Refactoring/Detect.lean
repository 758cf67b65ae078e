import Reshape.Refactoring.Conflict
import Reshape.Refactoring.Extract
import Reshape.Refactoring.Merge
import Reshape.Refactoring.Move
import Reshape.Refactoring.Parameter
import Reshape.Refactoring.Rename
import Reshape.Refactoring.Variable

/-! # Detecting refactorings

All detectors run, conflicts are resolved, and what is left is listed by group and description. -/

namespace Reshape

namespace Refactoring

/-- Whether two refactorings say the same. -/
def repeats (r other : Refactoring) : Bool :=
  r.description == other.description && r.fact == other.fact

/-- Drop every refactoring that says the same as the last one kept. -/
def dropRepeatsOf (last : Refactoring) : List Refactoring → List Refactoring
  | [] => []
  | r :: rest => if r.repeats last then dropRepeatsOf last rest else r :: dropRepeatsOf r rest

/-- Keep one of neighbouring refactorings that say the same. -/
def dropRepeats : List Refactoring → List Refactoring
  | [] => []
  | r :: rest => r :: dropRepeatsOf r rest

end Refactoring

namespace Comparison

variable (c : Comparison)

/-- What all detectors find. -/
def findings : List Refactoring :=
  c.renames ++ c.moves ++ c.extractions ++ c.inlinings ++ c.merges ++ c.splits
    ++ c.parameterChanges ++ c.variableChanges

/-- The refactorings between the two versions, by group and description. -/
def refactorings : List Refactoring :=
  Refactoring.dropRepeats ((Refactoring.resolve c.findings).mergeSort Refactoring.listedFirst)

end Comparison

end Reshape
