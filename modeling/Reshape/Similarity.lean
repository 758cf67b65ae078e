import Reshape.Sequence.Overlap
import Reshape.Text.Distance

/-! # Degrees of similarity

Ratios between zero and one that say how alike two names, two lists or two parameter lists are. -/

namespace Reshape.Similarity

/-- The quotient of two counts. -/
def ratio (part whole : Nat) : Float :=
  Float.ofNat part / Float.ofNat whole

/-- Similarity of two texts: one minus their edit distance in proportion to the longer one. -/
def text (a b : String) : Float :=
  if a == b then 1.0
  else if a.isEmpty || b.isEmpty then 0.0
  else 1.0 - ratio (Text.editDistance a b) (max a.length b.length)

/-- Dice coefficient of two lists taken as multisets. Two empty lists are alike. -/
def dice {α : Type} [BEq α] (xs ys : List α) : Float :=
  if xs.isEmpty && ys.isEmpty then 1.0
  else 2.0 * Float.ofNat (Sequence.overlap xs ys) / Float.ofNat (xs.length + ys.length)

/-- Similarity of two parameter lists, given by their types: their Dice coefficient, weighted by the
share of positions that hold the same type. -/
def parameters (xs ys : List String) : Float :=
  if xs.isEmpty && ys.isEmpty then 1.0
  else
    let same := ((xs.zip ys).filter fun (x, y) => x == y).length
    dice xs ys * (0.5 + 0.5 * ratio same (max xs.length ys.length))

end Reshape.Similarity
