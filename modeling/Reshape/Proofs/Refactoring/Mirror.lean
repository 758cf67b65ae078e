import Mathlib
import Reshape.Refactoring.Extract

/-! # Inlining is extraction with the versions exchanged

A comparison can be read backwards: the models change places, every pair is reversed, and what was
added is now removed.  An operation that was inlined is then one that was extracted, from the later
version of its caller, and the fragments that support it change sides.  The main statement is that
the two detectors agree about this, fact by fact. -/

namespace Reshape

/-! ### Comparisons read backwards -/

/-- A pair, seen from the other version. -/
def Pair.reversed (pair : Pair) : Pair where
  before := pair.after
  after := pair.before
  score := pair.score

/-- A pairing of one kind, seen from the other version. -/
def KindPairing.reversed (pairing : KindPairing) : KindPairing where
  pairs := pairing.pairs.map Pair.reversed
  removed := pairing.added
  added := pairing.removed

/-- A pairing, seen from the other version. -/
def Pairing.reversed (pairing : Pairing) : Pairing where
  classes := pairing.classes.reversed
  operations := pairing.operations.reversed
  attributes := pairing.attributes.reversed

theorem KindPairing.reversed_reversed (pairing : KindPairing) :
    pairing.reversed.reversed = pairing := by
  have hpairs : (pairing.pairs.map Pair.reversed).map Pair.reversed = pairing.pairs := by
    rw [List.map_map]
    exact List.map_id _
  simp [reversed, hpairs]

/-- Two fragments that support a fact, seen from the other version. -/
def FragmentPair.reversed (pair : FragmentPair) : FragmentPair where
  before := pair.after
  after := pair.before

/-- An extraction or an inlining, seen from the other version: what was extracted is inlined, and
the two versions of the caller change places.  Other facts stay as they are. -/
def Fact.mirrored : Fact → Fact
  | .extractMethod moved extracted sourceBefore sourceAfter =>
    .inlineMethod moved extracted sourceAfter sourceBefore
  | .inlineMethod moved inlined targetBefore targetAfter =>
    .extractMethod moved inlined targetAfter targetBefore
  | fact => fact

theorem Fact.mirrored_mirrored (fact : Fact) : fact.mirrored.mirrored = fact := by
  cases fact <;> rfl

/-- A refactoring with its support, seen from the other version. -/
def Refactoring.mirrored (r : Refactoring) : Refactoring where
  fact := r.fact.mirrored
  justification := r.justification.map FragmentPair.reversed

theorem Refactoring.mirrored_mirrored (r : Refactoring) : r.mirrored.mirrored = r := by
  have hsupport : (r.justification.map FragmentPair.reversed).map FragmentPair.reversed =
      r.justification := by
    rw [List.map_map]
    exact List.map_id _
  simp [mirrored, Fact.mirrored_mirrored, hsupport]

namespace Comparison

variable (c : Comparison)

/-- A comparison, read backwards. -/
def reversed : Comparison where
  before := c.after
  after := c.before
  pairing := c.pairing.reversed
  thresholds := c.thresholds

theorem reversed_reversed : c.reversed.reversed = c := by
  simp [reversed, Pairing.reversed, KindPairing.reversed_reversed]

theorem addedOperations_reversed : c.reversed.addedOperations = c.removedOperations := rfl

theorem operationPairs_reversed : c.reversed.operationPairs = c.operationPairs.map Prod.swap := by
  simp [operationPairs, reversed, Pairing.reversed, KindPairing.reversed, Pair.reversed,
    Function.comp_def]

/-! ### The two detectors -/

/-- The later version of the caller plays the part of the one that lost its statements. -/
theorem inlining?_eq (op b a : Operation) :
    c.inlining? op b a = (c.reversed.extraction? op a b).map Refactoring.mirrored := by
  unfold inlining? extraction?
  split
  · rfl
  · -- The same call and the same places are looked for, so only the answers are compared.
    cases hcall : b.extraCall? a op.name with
    | none => rfl
    | some call =>
      have hthreshold : c.reversed.thresholds = c.thresholds := rfl
      rw [hthreshold]
      cases hfound : op.relocated? call a b c.thresholds.extractOverlap with
      | none => simp [hfound]
      | some found =>
        simp only [hfound, Option.bind_eq_bind, Option.bind_some, Option.pure_def, Option.map_some,
          Refactoring.mirrored, Fact.mirrored, List.map_map]
        rfl

theorem inlinings_eq : c.inlinings = c.reversed.extractions.map Refactoring.mirrored := by
  rw [inlinings, extractions, addedOperations_reversed, operationPairs_reversed, List.map_flatMap]
  refine List.flatMap_congr fun op _ => ?_
  rw [List.filterMap_map, List.map_filterMap]
  exact List.filterMap_congr fun pair _ => c.inlining?_eq op pair.1 pair.2

/-- **Inlining mirrors extraction.**  The inlinings of a comparison are the extractions of the
comparison read backwards, mirrored one by one and in the same order; and the other way round. -/
theorem inlinings_mirror_extractions :
    c.inlinings = c.reversed.extractions.map Refactoring.mirrored ∧
      c.extractions = c.reversed.inlinings.map Refactoring.mirrored := by
  refine ⟨c.inlinings_eq, ?_⟩
  have hmirrored : Refactoring.mirrored ∘ Refactoring.mirrored = id :=
    funext Refactoring.mirrored_mirrored
  rw [c.reversed.inlinings_eq, reversed_reversed, List.map_map, hmirrored, List.map_id]

end Comparison

end Reshape
