import Reshape.Refactoring.Comparison
import Reshape.Sequence.Overlap
import Reshape.Similarity

/-! # Merged and split methods

Several removed methods were merged if each shares enough statements with an added method of their
container, and the added method has more parameters than any of them or is mostly covered by them. A
removed method was split if several added methods share enough statements with it and cover it. -/

namespace Reshape

namespace Operation

/-- The share of an operation's statements that some texts hold as well. -/
def shareIn (op : Operation) (texts : List String) : Float :=
  Similarity.ratio (Sequence.overlap op.statementTexts texts) op.statements.length

/-- The statements of two operations with equal texts, first come. -/
def sharedStatements (b a : Operation) : List FragmentPair :=
  (Sequence.firstCome b.statementTexts a.statementTexts.zipIdx).map (b.fragmentPair a)

end Operation

namespace Comparison

variable (c : Comparison)

/-- Whether an operation before and one after have bodies and live in one container. -/
def comparable (b a : Operation) : Bool :=
  !b.statements.isEmpty && !a.statements.isEmpty && c.sameContainer b a

/-- The removed operations that share enough of their statements with an added one. -/
def mergeSources (target : Operation) : List Operation :=
  c.removedOperations.filter fun op =>
    c.comparable op target && c.thresholds.mergeFraction ≤ op.shareIn target.statementTexts

/-- The merge of removed operations into an added one. -/
def merge? (target : Operation) : Option Refactoring :=
  let sources := c.mergeSources target
  let widened := sources.all fun op => op.parameters.length < target.parameters.length
  let combined := (sources.flatMap Operation.statementTexts).eraseDups
  if sources.length < 2 || (!widened && target.shareIn combined < c.thresholds.mergeCoverage) then
    none
  else
    some
      { fact := .mergeMethod (sources.map fun op => c.before.operationRef op.id)
          (c.after.operationRef target.id)
        justification := sources.flatMap fun op => op.sharedStatements target }

/-- The added operations that share enough of their statements with a removed one. -/
def splitTargets (source : Operation) : List Operation :=
  c.addedOperations.filter fun op =>
    c.comparable source op && c.thresholds.mergeFraction ≤ op.shareIn source.statementTexts

/-- The split of a removed operation into added ones. -/
def split? (source : Operation) : Option Refactoring :=
  let targets := c.splitTargets source
  let combined := targets.flatMap Operation.statementTexts
  if targets.length < 2 || source.shareIn combined < c.thresholds.splitCoverage then none
  else
    some
      { fact := .splitMethod (c.before.operationRef source.id)
          (targets.map fun op => c.after.operationRef op.id)
        justification := targets.flatMap fun op => source.sharedStatements op }

/-- All merges. -/
def merges : List Refactoring :=
  c.addedOperations.filterMap c.merge?

/-- All splits. -/
def splits : List Refactoring :=
  c.removedOperations.filterMap c.split?

end Comparison

end Reshape
