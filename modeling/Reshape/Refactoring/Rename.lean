import Reshape.Pairing.Score
import Reshape.Refactoring.Comparison

/-! # Renamings

A paired class with another name is renamed, and moved as well if its container differs. A paired
method is renamed if it stays in its class and keeps its number of parameters; a paired attribute,
if it stays in its class. -/

namespace Reshape.Comparison

variable (c : Comparison)

/-- The renaming of a class. -/
def classRename? (b a : Class) : Option Refactoring :=
  if b.name == a.name then none
  else
    let (before, after) := c.classRefs b a
    let what := if b.container == a.container then .renameClass else .moveAndRenameClass
    some (.ofDeclarations what before after)

/-- The renaming of a method. -/
def methodRename? (b a : Operation) : Option Refactoring :=
  if b.name == a.name || !c.sameContainer b a
      || b.parameters.length != a.parameters.length then none
  else
    let (before, after) := c.operationRefs b a
    let similarity := b.bodySimilarity a
    let isPure := b.parameterTypes == a.parameterTypes && c.thresholds.renameBody ≤ similarity
    some
      { fact := .renameMethod before after similarity isPure
        justification := b.sharedInOrder a }

/-- The renaming of an attribute. -/
def attributeRename? (b a : Attribute) : Option Refactoring :=
  if b.name == a.name || !c.sameClass b.owner a.owner then none
  else
    let (before, after) := c.attributeRefs b a
    some (.ofDeclarations .renameAttribute before after)

/-- All renamings. -/
def renames : List Refactoring :=
  c.classPairs.filterMap (fun (b, a) => c.classRename? b a)
    ++ c.operationPairs.filterMap (fun (b, a) => c.methodRename? b a)
    ++ c.attributePairs.filterMap (fun (b, a) => c.attributeRename? b a)

end Reshape.Comparison
