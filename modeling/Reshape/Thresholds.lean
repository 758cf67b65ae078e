/-! # Similarity thresholds

The ratios above which things count as alike, and the height of the smallest subtree that is matched
as a whole. A ratio lies between zero and one; `clamped` brings any other value there. -/

namespace Reshape

/-- Similarity thresholds of matching and detection. -/
structure Thresholds where
  /-- Least score for pairing two operations. -/
  operationMatch : Float := 0.75
  /-- Least score for pairing two classes. -/
  classMatch : Float := 0.5
  /-- Least score for pairing two attributes. -/
  attributeMatch : Float := 0.6
  /-- Similarity of bodies from which on a renaming of a method counts as pure. -/
  renameBody : Float := 0.8
  /-- Share of an extracted or inlined body that has to be found in the other operation. -/
  extractOverlap : Float := 0.5
  /-- Share of each merged method that has to be found in the result. -/
  mergeFraction : Float := 0.6
  /-- Share of the result that the merged methods have to cover if no parameter was added. -/
  mergeCoverage : Float := 0.8
  /-- Share of a split method that its parts have to cover. -/
  splitCoverage : Float := 0.5
  /-- Least Dice coefficient for pairing two inner nodes of trees. -/
  dice : Float := 0.5
  /-- Least height of subtrees that are matched as a whole. -/
  minHeight : Nat := 2
  deriving Repr, DecidableEq, Inhabited

namespace Thresholds

/-- The nearest ratio between zero and one. NaN stays as it is. -/
def clampRatio (x : Float) : Float :=
  if x < 0.0 then 0.0 else if x > 1.0 then 1.0 else x

/-- Bring every ratio between zero and one, and the height to at least one. -/
def clamped (t : Thresholds) : Thresholds where
  operationMatch := clampRatio t.operationMatch
  classMatch := clampRatio t.classMatch
  attributeMatch := clampRatio t.attributeMatch
  renameBody := clampRatio t.renameBody
  extractOverlap := clampRatio t.extractOverlap
  mergeFraction := clampRatio t.mergeFraction
  mergeCoverage := clampRatio t.mergeCoverage
  splitCoverage := clampRatio t.splitCoverage
  dice := clampRatio t.dice
  minHeight := max t.minHeight 1

end Thresholds

end Reshape
