import Mathlib
import Reshape.Thresholds

/-! # Clamped ratios

Floating-point numbers other than NaN are ordered totally, so a ratio that is a number is at most
one once it has been clamped. -/

namespace Reshape

open Float.Model

/-- A number and a positive number compare alike from both sides. -/
theorem exists_compare_swap {x : UnpackedFloat} (hx : x.isNaN = false) {m : Nat} {e : Int}
    (hm : 0 < m) : ∃ order, x.compare (.finite .positive m e hm) = some order ∧
      (UnpackedFloat.finite .positive m e hm).compare x = some order.swap := by
  cases x with
  | notANumber => cases hx
  | infinity sign => cases sign <;> exact ⟨_, rfl, rfl⟩
  | zero sign => exact ⟨_, rfl, rfl⟩
  | finite sign mantissa exponent hmantissa =>
    cases sign with
    | negative => exact ⟨_, rfl, rfl⟩
    | positive =>
      refine ⟨_, rfl, ?_⟩
      rw [Ordering.swap_then, Int.compare_swap, Nat.compare_swap]
      rfl

theorem unpack_one :
    (1.0 : Float).toModel.unpack = .finite .positive (2 ^ 52) (-52) (by decide) := by
  rfl

/-- A number that is not above one is at most one. -/
theorem le_one_of_not_gt {x : Float} (hx : x.isNaN = false) (h : ¬x > 1.0) : x ≤ 1.0 := by
  obtain ⟨order, hle, hgt⟩ : ∃ order, x.toModel.unpack.compare (1.0 : Float).toModel.unpack =
      some order ∧ (1.0 : Float).toModel.unpack.compare x.toModel.unpack = some order.swap := by
    rw [unpack_one]
    exact exists_compare_swap hx _
  have hnot : order.swap ≠ .lt := by
    rintro heq
    refine h (decide_eq_true ?_)
    show ((1.0 : Float).toModel.unpack.compare x.toModel.unpack == some .lt) = true
    rw [hgt, heq]
    rfl
  refine decide_eq_true ?_
  show (x.toModel.unpack.compare (1.0 : Float).toModel.unpack).any (·.isLE) = true
  rw [hle]
  cases order with
  | gt => exact absurd rfl hnot
  | lt | eq => rfl

namespace Thresholds

/-- A ratio that is a number is at most one once it has been clamped. -/
theorem clampRatio_le_one {x : Float} (hx : x.isNaN = false) : clampRatio x ≤ 1.0 := by
  rw [clampRatio]
  split
  · decide
  · split
    · decide
    · rename_i h
      exact le_one_of_not_gt hx h

end Thresholds

end Reshape
