import Reshape.Number.Numeral
import Reshape.Pairing.Basic

/-! # Candidates for a pairing

Candidates are taken in the order of their rank as long as both of their entities are free. The rank
goes by score, then prefers entities of one file, then similar names, then earlier entities. -/

namespace Reshape

/-- Two entities that might be the same. -/
structure Candidate where
  before : Nat
  after : Nat
  score : Float
  sameFile : Bool
  nameDistance : Nat
  deriving Repr, DecidableEq, Inhabited

namespace Candidate

/-- How two candidates rank; the lesser one is taken up first. -/
def order (x y : Candidate) : Ordering :=
  (compare (Number.rank y.score) (Number.rank x.score)).then <|
  (compare y.sameFile.toNat x.sameFile.toNat).then <|
  (compare x.nameDistance y.nameDistance).then <|
  (compare x.before y.before).then <|
  compare x.after y.after

/-- Whether a candidate ranks no later than another one. -/
def ranksFirst (x y : Candidate) : Bool :=
  (x.order y).isLE

/-- Whether two candidates need the same entity. -/
def clashes (x y : Candidate) : Bool :=
  x.before == y.before || x.after == y.after

/-- The pair that a candidate stands for. -/
def pair (candidate : Candidate) : Pair :=
  ⟨candidate.before, candidate.after, candidate.score⟩

/-- The candidates that clash neither with those taken nor with an earlier one that is accepted. -/
def acceptFrom (taken : List Candidate) : List Candidate → List Candidate
  | [] => []
  | candidate :: rest =>
    if taken.any candidate.clashes then acceptFrom taken rest
    else candidate :: acceptFrom (candidate :: taken) rest

/-- The candidates that are accepted, best first. -/
def accept (candidates : List Candidate) : List Candidate :=
  acceptFrom [] (candidates.mergeSort ranksFirst)

end Candidate

end Reshape
