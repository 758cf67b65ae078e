import Reshape.Matching.BottomUp
import Reshape.Thresholds

/-! # Matching two syntax trees

Equal subtrees are mapped first, inner nodes second. -/

namespace Reshape.Matching

/-- Match two measured subtrees. -/
def matchMeasured {digest : Digest} (source target : Measured digest) (thresholds : Thresholds)
    (s t : Nat) : Except Violation Mapping := do
  let mapping ← topDown source target (max thresholds.minHeight 1) s t
  bottomUp source target thresholds.dice mapping s t

/-- Match the subtrees of two trees at given nodes. -/
def matchSubtrees (source target : Tree) (thresholds : Thresholds) (s t : Nat) :
    Except Violation Mapping :=
  matchMeasured (source.measured Digest.standard) (target.measured Digest.standard) thresholds s t

/-- Match two whole trees. -/
def matchTrees (source target : Tree) (thresholds : Thresholds) : Except Violation Mapping :=
  matchSubtrees source target thresholds source.root target.root

end Reshape.Matching
