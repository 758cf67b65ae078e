import Mathlib
import Reshape.Similarity
import Reshape.Proofs.Thresholds

/-! # Quotients of counts

A count is rounded to the nearest floating-point number, and so is the quotient of two of them.
Rounding keeps the order of the counts, and a quotient that is below one before it is rounded is at
most one afterwards. -/

namespace Reshape.Similarity

open Float.Model (Format UnpackedFloat totalExponent)
open Float.Model.UnpackedFloat (Sign Accuracy ExtendedMantissa roundWithAccuracy
  shiftToTargetExponent shiftToExponent packComponents unpackSign)

/-! ## Extended mantissas -/

theorem shiftRight_succ (em : ExtendedMantissa) (k : Nat) :
    em >>> (k + 1) = (em >>> k).shiftRightOne :=
  rfl

theorem mantissa_shiftRight (em : ExtendedMantissa) (k : Nat) :
    (em >>> k).mantissa = em.mantissa / 2 ^ k := by
  induction k with
  | zero => exact (Nat.div_one _).symm
  | succ k ih =>
    rw [shiftRight_succ, ExtendedMantissa.shiftRightOne, ih, Nat.div_div_eq_div_mul, pow_succ]

theorem mantissa_ofMantissaAndAccuracy (m : Nat) (accuracy : Accuracy) :
    (ExtendedMantissa.ofMantissaAndAccuracy m accuracy).mantissa = m := by
  match accuracy with
  | .exact | .inexact .lt | .inexact .eq | .inexact .gt => rfl

/-- A mantissa with its two residual bits, as a number of quarters. -/
def quarters (em : ExtendedMantissa) : Nat :=
  4 * em.mantissa + 2 * em.roundBit.toNat + em.stickyBit.toNat

theorem quarters_shiftRightOne (em : ExtendedMantissa) :
    quarters em.shiftRightOne = 2 * (quarters em / 4) + (quarters em % 4 + 3) / 4 := by
  obtain ⟨m, r, s⟩ := em
  have hbit : (m % 2 != 0).toNat = m % 2 := by
    rcases Nat.mod_two_eq_zero_or_one m with h | h <;> rw [h] <;> rfl
  rw [quarters, ExtendedMantissa.shiftRightOne, quarters]
  simp only [hbit]
  cases r <;> cases s <;> simp <;> omega

theorem quarters_shiftRight_le {em em' : ExtendedMantissa} (h : quarters em ≤ quarters em')
    (k : Nat) :
    quarters (em >>> k) ≤ quarters (em' >>> k) := by
  induction k with
  | zero => exact h
  | succ k ih =>
    rw [shiftRight_succ, shiftRight_succ, quarters_shiftRightOne, quarters_shiftRightOne]
    omega

theorem roundedMantissa_eq (em : ExtendedMantissa) :
    em.roundedMantissa = (quarters em + 1 + quarters em / 4 % 2) / 4 := by
  obtain ⟨m, r, s⟩ := em
  have hdiv : quarters ⟨m, r, s⟩ / 4 = m := by
    cases r <;> cases s <;> simp [quarters] <;> omega
  rw [hdiv]
  cases r <;> cases s <;>
    simp [quarters, ExtendedMantissa.roundedMantissa, ExtendedMantissa.accuracy,
      Accuracy.roundToNearestEven] <;> omega

theorem roundedMantissa_le_of_quarters {em em' : ExtendedMantissa}
    (h : quarters em ≤ quarters em') :
    em.roundedMantissa ≤ em'.roundedMantissa := by
  rw [roundedMantissa_eq, roundedMantissa_eq]
  refine Nat.div_le_div_right ?_
  rcases h.eq_or_lt with h | h
  · rw [h]
  · omega

theorem roundedMantissa_bounds (em : ExtendedMantissa) :
    em.mantissa ≤ em.roundedMantissa ∧ em.roundedMantissa ≤ em.mantissa + 1 := by
  have hround : em.roundBit.toNat ≤ 1 := Bool.toNat_le _
  have hsticky : em.stickyBit.toNat ≤ 1 := Bool.toNat_le _
  rw [roundedMantissa_eq, quarters]
  omega

theorem shiftRight_exact (m k : Nat) :
    ExtendedMantissa.ofMantissaAndAccuracy (m * 2 ^ k) .exact >>> k = ⟨m, false, false⟩ := by
  induction k generalizing m with
  | zero =>
    rw [pow_zero, Nat.mul_one]
    rfl
  | succ k ih =>
    rw [shiftRight_succ, pow_succ, Nat.mul_comm (2 ^ k), ← Nat.mul_assoc, ih]
    simp [ExtendedMantissa.shiftRightOne]

/-! ## Numbers of full precision -/

/-- A positive number with a mantissa of 53 bits. -/
@[ext]
structure Normal where
  mantissa : Nat
  exponent : Int
  lower : 2 ^ 52 ≤ mantissa
  upper : mantissa < 2 ^ 53

namespace Normal

theorem mantissa_pos (x : Normal) : 0 < x.mantissa :=
  Nat.lt_of_lt_of_le (by decide) x.lower

def unpacked (x : Normal) : UnpackedFloat :=
  .finite .positive x.mantissa x.exponent x.mantissa_pos

instance : LE Normal where
  le x y := x.exponent < y.exponent ∨ x.exponent = y.exponent ∧ x.mantissa ≤ y.mantissa

theorem le_def {x y : Normal} :
    x ≤ y ↔ x.exponent < y.exponent ∨ x.exponent = y.exponent ∧ x.mantissa ≤ y.mantissa :=
  Iff.rfl

/-- The number one. -/
def one : Normal :=
  ⟨2 ^ 52, -52, le_rfl, by decide⟩

theorem log2_mantissa (x : Normal) : x.mantissa.log2 = 52 :=
  (Nat.log2_eq_iff x.mantissa_pos.ne').mpr ⟨x.lower, x.upper⟩

theorem unpacked_le {x y : Normal} (h : x ≤ y) : x.unpacked.le y.unpacked = true := by
  show ((compare x.exponent y.exponent).then (compare x.mantissa y.mantissa)).isLE = true
  rcases le_def.mp h with h | ⟨he, hm⟩
  · rw [compare_lt_iff_lt.mpr h]
    rfl
  · rw [compare_eq_iff_eq.mpr he]
    exact Std.isLE_compare.mpr hm

/-- A mantissa that rounding has filled up takes the next exponent. -/
def carry (m : Nat) (e : Int) (lower : 2 ^ 52 ≤ m) : Normal :=
  if h : m < 2 ^ 53 then ⟨m, e, lower, h⟩ else ⟨2 ^ 52, e + 1, le_rfl, by decide⟩

theorem carry_of_lt {m : Nat} {e : Int} (lower : 2 ^ 52 ≤ m) (h : m < 2 ^ 53) :
    carry m e lower = ⟨m, e, lower, h⟩ :=
  dif_pos h

theorem carry_of_not_lt {m : Nat} {e : Int} (lower : 2 ^ 52 ≤ m) (h : ¬m < 2 ^ 53) :
    carry m e lower = ⟨2 ^ 52, e + 1, le_rfl, by decide⟩ :=
  dif_neg h

theorem carry_le_carry {m m' : Nat} {e e' : Int} (lower : 2 ^ 52 ≤ m) (lower' : 2 ^ 52 ≤ m')
    (h : m ≤ m') (he : e = e') : carry m e lower ≤ carry m' e' lower' := by
  subst he
  by_cases hm' : m' < 2 ^ 53
  · rw [carry_of_lt lower (h.trans_lt hm'), carry_of_lt lower' hm']
    exact .inr ⟨rfl, h⟩
  · rw [carry_of_not_lt lower' hm']
    by_cases hm : m < 2 ^ 53
    · rw [carry_of_lt lower hm]
      exact .inl (Int.lt_succ e)
    · rw [carry_of_not_lt lower hm]
      exact .inr ⟨rfl, le_rfl⟩

theorem carry_le_of_lt {m : Nat} {e : Int} (lower : 2 ^ 52 ≤ m) {x : Normal}
    (h : e < x.exponent) : carry m e lower ≤ x := by
  by_cases hm : m < 2 ^ 53
  · rw [carry_of_lt lower hm]
    exact .inl h
  · rw [carry_of_not_lt lower hm]
    rcases (Int.add_one_le_of_lt h).lt_or_eq with hlt | heq
    · exact .inl hlt
    · exact .inr ⟨heq, x.lower⟩

theorem exponent_carry (m : Nat) (e : Int) (lower : 2 ^ 52 ≤ m) :
    e ≤ (carry m e lower).exponent ∧ (carry m e lower).exponent ≤ e + 1 := by
  by_cases hm : m < 2 ^ 53
  · rw [carry_of_lt lower hm]
    exact ⟨le_rfl, Int.le_add_one le_rfl⟩
  · rw [carry_of_not_lt lower hm]
    exact ⟨Int.le_add_one le_rfl, le_rfl⟩

/-! ## Rounding -/

theorem lower_of_shift {m : Nat} (hm : 2 ^ 52 ≤ m) (accuracy : Accuracy) :
    2 ^ 52 ≤ (ExtendedMantissa.ofMantissaAndAccuracy m accuracy >>> (m.log2 - 52)).mantissa := by
  have hne : m ≠ 0 := by omega
  have hlog : 52 ≤ m.log2 := (Nat.le_log2 hne).mpr hm
  rw [mantissa_shiftRight, mantissa_ofMantissaAndAccuracy, Nat.le_div_iff_mul_le (by positivity),
    ← pow_add, Nat.add_sub_cancel' hlog]
  exact Nat.log2_self_le hne

theorem upper_of_shift {m : Nat} (hm : 2 ^ 52 ≤ m) (accuracy : Accuracy) :
    (ExtendedMantissa.ofMantissaAndAccuracy m accuracy >>> (m.log2 - 52)).mantissa < 2 ^ 53 := by
  have hlog : 52 ≤ m.log2 := (Nat.le_log2 (by omega)).mpr hm
  have hpow : 53 + (m.log2 - 52) = m.log2 + 1 := by omega
  rw [mantissa_shiftRight, mantissa_ofMantissaAndAccuracy, Nat.div_lt_iff_lt_mul (by positivity),
    ← pow_add, hpow]
  exact Nat.lt_log2_self

/-- A mantissa of 53 bits or more, rounded to 53 bits. -/
def rounded (m : Nat) (e : Int) (accuracy : Accuracy) (hm : 2 ^ 52 ≤ m) : Normal :=
  carry (ExtendedMantissa.ofMantissaAndAccuracy m accuracy >>> (m.log2 - 52)).roundedMantissa
    (e + (m.log2 - 52 : Nat)) ((lower_of_shift hm accuracy).trans (roundedMantissa_bounds _).1)

theorem exponent_rounded (m : Nat) (e : Int) (accuracy : Accuracy) (hm : 2 ^ 52 ≤ m) :
    e + (m.log2 - 52 : Nat) ≤ (rounded m e accuracy hm).exponent ∧
      (rounded m e accuracy hm).exponent ≤ e + (m.log2 - 52 : Nat) + 1 :=
  exponent_carry _ _ _

theorem targetExponent_eq {m : Nat} {e : Int} (hm : 2 ^ 52 ≤ m) (he : -1074 ≤ e) :
    Format.binary64.targetExponent (totalExponent m e) = e + (m.log2 - 52 : Nat) := by
  have hlog : 52 ≤ m.log2 := (Nat.le_log2 (by omega)).mpr hm
  simp only [Format.targetExponent, totalExponent, Format.mantissaBits, Format.minExponent]
  omega

theorem shiftToTargetExponent_eq {m : Nat} {e : Int} (hm : 2 ^ 52 ≤ m) (he : -1074 ≤ e)
    (accuracy : Accuracy) : shiftToTargetExponent .binary64 m e accuracy =
      (ExtendedMantissa.ofMantissaAndAccuracy m accuracy >>> (m.log2 - 52),
        e + (m.log2 - 52 : Nat)) := by
  have hshift : (e + (m.log2 - 52 : Nat) - e).toNat = m.log2 - 52 := by omega
  rw [shiftToTargetExponent, targetExponent_eq hm he, shiftToExponent, hshift]

/-- The second shift is the carry. -/
theorem shiftToTargetExponent_carry {m : Nat} {e : Int} (lower : 2 ^ 52 ≤ m) (upper : m ≤ 2 ^ 53)
    (he : -1074 ≤ e) : shiftToTargetExponent .binary64 m e .exact =
      (⟨(carry m e lower).mantissa, false, false⟩, (carry m e lower).exponent) := by
  rw [shiftToTargetExponent_eq lower he]
  by_cases hm : m < 2 ^ 53
  · have hlog : m.log2 = 52 := (Nat.log2_eq_iff (by omega)).mpr ⟨lower, hm⟩
    rw [carry_of_lt lower hm, hlog]
    exact congrArg (_, ·) (Int.add_zero e)
  · obtain rfl : m = 2 ^ 53 := by omega
    rw [carry_of_not_lt lower hm, Nat.log2_two_pow]
    rfl

theorem roundWithAccuracy_eq {m : Nat} {e : Int} (hm : 2 ^ 52 ≤ m) (he : -1074 ≤ e)
    (accuracy : Accuracy) : roundWithAccuracy .binary64 .positive m e accuracy =
      (rounded m e accuracy hm).unpacked := by
  have hupper : (ExtendedMantissa.ofMantissaAndAccuracy m accuracy >>>
      (m.log2 - 52)).roundedMantissa ≤ 2 ^ 53 :=
    (roundedMantissa_bounds _).2.trans (upper_of_shift hm accuracy)
  rw [roundWithAccuracy, shiftToTargetExponent_eq hm he]
  simp only
  rw [shiftToTargetExponent_carry _ hupper (by omega)]
  exact dif_neg (rounded m e accuracy hm).mantissa_pos.ne'

/-- Rounding keeps the order. -/
theorem rounded_le_rounded {m m' : Nat} (e : Int) (hm : 2 ^ 52 ≤ m) (hm' : 2 ^ 52 ≤ m')
    (h : m ≤ m') : rounded m e .exact hm ≤ rounded m' e .exact hm' := by
  have hlog : 52 ≤ m.log2 := (Nat.le_log2 (by omega)).mpr hm
  have hlogs : m.log2 ≤ m'.log2 :=
    (Nat.le_log2 (by omega)).mpr ((Nat.log2_self_le (by omega)).trans h)
  -- mantissas of one length are shifted alike, and otherwise the exponents decide
  rcases hlogs.eq_or_lt with heq | hlt
  · refine carry_le_carry _ _ (roundedMantissa_le_of_quarters ?_) (by rw [heq])
    rw [heq]
    refine quarters_shiftRight_le ?_ _
    exact Nat.mul_le_mul_left 4 h
  · have hnext := (exponent_rounded m' e .exact hm').1
    exact carry_le_of_lt _ (lt_of_lt_of_le (by omega) hnext)

theorem log2_mul {n : Nat} (hn : 0 < n) (k : Nat) : (n * 2 ^ k).log2 = n.log2 + k := by
  have hpos : 0 < 2 ^ k := by positivity
  refine (Nat.log2_eq_iff (Nat.mul_pos hn hpos).ne').mpr ⟨?_, ?_⟩
  · rw [pow_add]
    exact Nat.mul_le_mul_right _ (Nat.log2_self_le hn.ne')
  · rw [Nat.add_right_comm, pow_add]
    exact Nat.mul_lt_mul_of_pos_right Nat.lt_log2_self hpos

theorem rounded_congr {m m' : Nat} {e e' : Int} (hm : 2 ^ 52 ≤ m) (hm' : 2 ^ 52 ≤ m') (h : m = m')
    (he : e = e') : rounded m e .exact hm = rounded m' e' .exact hm' := by
  subst h he
  rfl

theorem le_mantissa_mul (x : Normal) (k : Nat) : 2 ^ 52 ≤ x.mantissa * 2 ^ k :=
  x.lower.trans (Nat.le_mul_of_pos_right _ (by positivity))

/-- A number that needs no rounding stays what it is. -/
theorem rounded_mul_two_pow (x : Normal) (k : Nat) :
    rounded (x.mantissa * 2 ^ k) (x.exponent - k) .exact (x.le_mantissa_mul k) = x := by
  have hlog : (x.mantissa * 2 ^ k).log2 - 52 = k := by
    rw [log2_mul x.mantissa_pos, x.log2_mantissa, Nat.add_sub_cancel_left]
  simp only [rounded, hlog, shiftRight_exact]
  exact (carry_of_lt x.lower x.upper).trans (by rw [Int.sub_add_cancel])

theorem roundWithAccuracy_mul_two_pow (x : Normal) (k : Nat) (he : -1074 ≤ x.exponent - k) :
    roundWithAccuracy .binary64 .positive (x.mantissa * 2 ^ k) (x.exponent - k) .exact =
      x.unpacked := by
  rw [roundWithAccuracy_eq (x.le_mantissa_mul k) he, rounded_mul_two_pow]

/-! ## The stored form -/

theorem unpackSign_packComponents (sign : Sign) (e : BitVec 11) (m : BitVec 52) :
    unpackSign (packComponents .binary64 sign e m) = sign.toBitVec := by
  show (sign.toBitVec ++ e ++ m).extractLsb' 63 1 = sign.toBitVec
  rw [BitVec.extractLsb'_append_eq_of_le (by decide),
    BitVec.extractLsb'_append_eq_of_le (by decide)]
  cases sign <;> rfl

theorem toNat_one_append {m : Nat} (lower : 2 ^ 52 ≤ m) (upper : m < 2 ^ 53) :
    (1#1 ++ BitVec.ofNat 52 m).toNat = m := by
  rw [BitVec.toNat_append, ← Nat.shiftLeft_add_eq_or_of_lt (BitVec.isLt _)]
  simp
  omega

theorem unpack_pack (x : Normal) (he : -1074 ≤ x.exponent) (he' : x.exponent ≤ 971) :
    (Float.Model.pack x.unpacked).unpack = x.unpacked := by
  obtain ⟨biased, hbiased⟩ : ∃ biased : Nat, (biased : Int) = x.exponent + 1075 :=
    ⟨(x.exponent + 1075).toNat, Int.toNat_of_nonneg (by omega)⟩
  have hlog : x.mantissa.log2 + 1 = Format.mantissaBits .binary64 :=
    congrArg (· + 1) x.log2_mantissa
  have htoNat :
      (x.exponent + (Format.exponentBias .binary64 : Nat) + (52 : Nat)).toNat = biased := by
    show (x.exponent + 1023 + 52).toNat = biased
    omega
  have hexponent : (BitVec.ofNat 11 biased).toNat = biased := by
    rw [BitVec.toNat_ofNat, Nat.mod_eq_of_lt (by omega)]
  have hinfinity : BitVec.ofNat 11 biased ≠ -1#11 := by
    intro h
    have : biased = 2047 := hexponent.symm.trans (congrArg BitVec.toNat h)
    omega
  have hzero : BitVec.ofNat 11 biased ≠ 0#11 := by
    intro h
    have : biased = 0 := hexponent.symm.trans (congrArg BitVec.toNat h)
    omega
  have hfits : ¬2 ^ 11 ≤ biased + 1 := by omega
  show UnpackedFloat.unpack .binary64 (UnpackedFloat.pack .binary64 x.unpacked) = _
  simp only [unpacked, UnpackedFloat.pack, htoNat]
  rw [if_neg hfits, if_pos hlog]
  simp only [UnpackedFloat.unpack, UnpackedFloat.unpackMantissa_packComponents,
    UnpackedFloat.unpackExponent_packComponents, unpackSign_packComponents]
  rw [if_neg hinfinity, if_neg hzero, UnpackedFloat.finite.injEq, hexponent]
  refine ⟨rfl, toNat_one_append x.lower x.upper, ?_⟩
  show (biased : Int) - (1023 + 52) = x.exponent
  omega

/-! ## Counts -/

theorem le_mul_two_pow {n : Nat} (hn : 0 < n) : 2 ^ 52 ≤ n * 2 ^ 53 := by
  omega

/-- A count as a floating-point number. -/
def count (n : Nat) (hn : 0 < n) : Normal :=
  rounded (n * 2 ^ 53) (-53) .exact (le_mul_two_pow hn)

theorem count_le_count {n k : Nat} (hn : 0 < n) (hk : 0 < k) (h : n ≤ k) :
    count n hn ≤ count k hk :=
  rounded_le_rounded (-53) _ _ (Nat.mul_le_mul_right _ h)

theorem exponent_count {n : Nat} (hn : 0 < n) :
    (n.log2 : Int) - 52 ≤ (count n hn).exponent ∧ (count n hn).exponent ≤ n.log2 - 51 := by
  have hlog := log2_mul hn 53
  have hexponent := exponent_rounded (n * 2 ^ 53) (-53) .exact (le_mul_two_pow hn)
  rw [hlog] at hexponent
  rw [count]
  omega

/-- A count of at most 53 bits, which is exact. -/
def ofSmall (n : Nat) (hn : 0 < n) (h : n < 2 ^ 53) : Normal :=
  have hlog : (n * 2 ^ (52 - n.log2)).log2 = 52 := by
    have := (Nat.log2_lt hn.ne').mpr h
    rw [log2_mul hn]
    omega
  have hbounds := (Nat.log2_eq_iff (Nat.mul_pos hn (by positivity)).ne').mp hlog
  ⟨n * 2 ^ (52 - n.log2), n.log2 - 52, hbounds.1, hbounds.2⟩

theorem count_eq_ofSmall {n : Nat} (hn : 0 < n) (h : n < 2 ^ 53) : count n hn = ofSmall n hn h := by
  have hlog := (Nat.log2_lt hn.ne').mpr h
  refine Eq.trans ?_ (rounded_mul_two_pow (ofSmall n hn h) (n.log2 + 1))
  refine rounded_congr _ _ ?_ ?_
  · show n * 2 ^ 53 = n * 2 ^ (52 - n.log2) * 2 ^ (n.log2 + 1)
    rw [Nat.mul_assoc, ← pow_add]
    congr 2
    omega
  · show (-53 : Int) = n.log2 - 52 - (n.log2 + 1 : Nat)
    omega

theorem round_small {n : Nat} (hn : 0 < n) (h : n < 2 ^ 53) :
    UnpackedFloat.round .binary64 .positive n 0 = (ofSmall n hn h).unpacked := by
  have hlog := (Nat.log2_lt hn.ne').mpr h
  have htarget : Format.binary64.targetExponent (totalExponent n 0) = n.log2 - 52 := by
    simp only [Format.targetExponent, totalExponent, Format.mantissaBits, Format.minExponent]
    omega
  have hshift : (0 - ((n.log2 : Int) - 52)).toNat = 52 - n.log2 := by omega
  have hexponent : (0 : Int) - (52 - n.log2 : Nat) = n.log2 - 52 - (0 : Nat) := by omega
  have hmantissa : n * 2 ^ (52 - n.log2) = (ofSmall n hn h).mantissa * 2 ^ 0 := (Nat.mul_one _).symm
  have hleast : -1074 ≤ (n.log2 : Int) - 52 - (0 : Nat) := by omega
  rw [UnpackedFloat.round, htarget, UnpackedFloat.decreaseExponent, hshift, Nat.shiftLeft_eq,
    hexponent, hmantissa]
  exact roundWithAccuracy_mul_two_pow (ofSmall n hn h) 0 hleast

theorem unpack_toFloat {n : Nat} (hn : 0 < n) (h : n < 2 ^ 53) :
    n.toUInt64.toFloat.toModel.unpack = (ofSmall n hn h).unpacked := by
  have hlog := (Nat.log2_lt hn.ne').mpr h
  have htoNat : n.toUInt64.toNat = n := Nat.mod_eq_of_lt (by omega)
  have hcompare : compare (n : Int) 0 = .gt := compare_gt_iff_gt.mpr (by omega)
  show (Float.Model.pack
    (UnpackedFloat.normalize .binary64 n.toUInt64.toNat 0 .positive)).unpack = _
  rw [htoNat, UnpackedFloat.normalize, hcompare]
  show (Float.Model.pack (UnpackedFloat.round .binary64 .positive n 0)).unpack = _
  rw [round_small hn h]
  refine unpack_pack _ ?_ ?_
  · show (-1074 : Int) ≤ n.log2 - 52
    omega
  · show (n.log2 : Int) - 52 ≤ 971
    omega

theorem unpack_mul_one {x : Float} {y : Normal} (hx : x.toModel.unpack = y.unpacked)
    (he : -1022 ≤ y.exponent) (he' : y.exponent ≤ 971) :
    (x * Float.ofBits 0x3FF0000000000000).toModel.unpack = y.unpacked := by
  show (Float.Model.pack (UnpackedFloat.mul .binary64 x.toModel.unpack one.unpacked)).unpack = _
  rw [hx]
  show (Float.Model.pack (roundWithAccuracy .binary64 .positive (y.mantissa * 2 ^ 52)
    (y.exponent - (52 : Nat)) .exact)).unpack = _
  rw [roundWithAccuracy_mul_two_pow y 52 (by omega)]
  exact unpack_pack y (by omega) he'

theorem unpack_ofNat {n : Nat} (hn : 0 < n) (h : n < 2 ^ 64) :
    (Float.ofNat n).toModel.unpack = (count n hn).unpacked := by
  have hlog := (Nat.log2_lt hn.ne').mpr h
  obtain ⟨hlower, hupper⟩ := exponent_count hn
  -- a small count is converted exactly and multiplied by the zeroth power of ten
  by_cases hsmall : n < 2 ^ 53
  · have hofNat : Float.ofNat n = n.toUInt64.toFloat * Float.ofBits 0x3FF0000000000000 :=
      dif_pos ⟨hsmall, by decide⟩
    rw [count_eq_ofSmall hn hsmall] at hlower hupper ⊢
    rw [hofNat]
    exact unpack_mul_one (unpack_toFloat hn hsmall) (by omega) (by omega)
  · have hofNat : Float.ofNat n = Float.ofModel (Float.Model.ofScientific n 0) :=
      dif_neg fun h => hsmall h.1
    rw [hofNat]
    show (Float.Model.pack (UnpackedFloat.ofScientific .binary64 n 0)).unpack = _
    have hnear : ¬(0 : Int) < -((2 : Int) ^ 11 + n.log2) := by omega
    rw [UnpackedFloat.ofScientific, dif_neg hn.ne', if_neg (by decide), if_neg hnear, if_pos le_rfl]
    show (Float.Model.pack
      (roundWithAccuracy .binary64 .positive (n <<< 53 * 1) (-53) .exact)).unpack =
      _
    rw [Nat.mul_one, Nat.shiftLeft_eq, roundWithAccuracy_eq (le_mul_two_pow hn) (by decide)]
    exact unpack_pack (count n hn) (by omega) (by omega)

/-! ## Quotients -/

theorem divCore_eq (x y : Normal) (hnear : y.exponent ≤ x.exponent + 1000) :
    UnpackedFloat.divCore .binary64 x.mantissa x.exponent y.mantissa y.exponent =
      (x.mantissa * 2 ^ 53 / y.mantissa, x.exponent - y.exponent - 53,
        UnpackedFloat.accuracyOfFraction (x.mantissa * 2 ^ 53 % y.mantissa) y.mantissa) := by
  have htarget : min (x.exponent - y.exponent) (Format.binary64.targetExponent
      (totalExponent x.mantissa x.exponent - totalExponent y.mantissa y.exponent)) =
      x.exponent - y.exponent - 53 := by
    simp only [Format.targetExponent, totalExponent, Format.mantissaBits, Format.minExponent,
      log2_mantissa]
    omega
  have hshift : (x.exponent - y.exponent - (x.exponent - y.exponent - 53)).toNat = 53 := by omega
  simp only [UnpackedFloat.divCore, htarget, hshift, Nat.shiftLeft_eq]

theorem le_div_mantissa (x y : Normal) : 2 ^ 52 ≤ x.mantissa * 2 ^ 53 / y.mantissa := by
  have hx := x.lower
  have hy := y.upper
  rw [Nat.le_div_iff_mul_le y.mantissa_pos]
  omega

theorem log2_div_mantissa_le {x y : Normal} {k : Nat}
    (h : x.mantissa * 2 ^ 53 < 2 ^ (k + 1) * y.mantissa) :
    (x.mantissa * 2 ^ 53 / y.mantissa).log2 ≤ k := by
  have hquotient := le_div_mantissa x y
  refine Nat.le_of_lt_succ ((Nat.log2_lt (by omega)).mpr ?_)
  exact (Nat.div_lt_iff_lt_mul y.mantissa_pos).mpr h

/-- The quotient of two numbers. -/
def quotient (x y : Normal) : Normal :=
  rounded (x.mantissa * 2 ^ 53 / y.mantissa) (x.exponent - y.exponent - 53)
    (UnpackedFloat.accuracyOfFraction (x.mantissa * 2 ^ 53 % y.mantissa) y.mantissa)
    (le_div_mantissa x y)

theorem div_unpacked (x y : Normal) (hnear : y.exponent ≤ x.exponent + 1000) :
    UnpackedFloat.div .binary64 x.unpacked y.unpacked = (quotient x y).unpacked := by
  rw [unpacked, unpacked, UnpackedFloat.div, divCore_eq x y hnear]
  exact roundWithAccuracy_eq (le_div_mantissa x y) (by omega) _

theorem le_exponent_quotient (x y : Normal) :
    x.exponent - y.exponent - 53 ≤ (quotient x y).exponent :=
  (Int.le_add_of_nonneg_right (Int.natCast_nonneg _)).trans (exponent_rounded _ _ _ _).1

theorem quotient_self (x : Normal) : quotient x x = one := by
  have hmantissa : x.mantissa * 2 ^ 53 / x.mantissa = one.mantissa * 2 ^ 1 :=
    Nat.mul_div_cancel_left _ x.mantissa_pos
  have hexponent : x.exponent - x.exponent - 53 = one.exponent - (1 : Nat) := by
    rw [Int.sub_self]
    rfl
  have hexact :
      UnpackedFloat.accuracyOfFraction (x.mantissa * 2 ^ 53 % x.mantissa) x.mantissa = .exact := by
    rw [Nat.mul_mod_right]
    rfl
  rw [quotient, hexact]
  exact (rounded_congr _ _ hmantissa hexponent).trans (one.rounded_mul_two_pow 1)

/-- The quotient of two numbers in order is rounded to one or less. -/
theorem quotient_le_one {x y : Normal} (h : x ≤ y) : quotient x y ≤ one := by
  have hone : one.exponent = -52 := rfl
  rcases le_def.mp h with he | ⟨he, hm⟩
  · -- the mantissas may be out of order, which costs one bit
    have hlog : (x.mantissa * 2 ^ 53 / y.mantissa).log2 ≤ 53 := by
      have hx := x.upper
      have hy := y.lower
      exact log2_div_mantissa_le (by omega)
    exact carry_le_of_lt _ (by omega)
  · rcases hm.lt_or_eq with hm | hm
    · have hlog : (x.mantissa * 2 ^ 53 / y.mantissa).log2 ≤ 52 := log2_div_mantissa_le (by omega)
      exact carry_le_of_lt _ (by omega)
    · obtain rfl : x = y := Normal.ext hm he
      rw [quotient_self]
      exact .inr ⟨rfl, le_rfl⟩

end Normal

/-- A count that is at most another gives a quotient of at most one. -/
theorem ratio_le_one {part whole : Nat} (hpart : part ≤ whole) (hwhole : 0 < whole)
    (hword : whole < 2 ^ 64) : ratio part whole ≤ 1.0 := by
  have hwholeLog := (Nat.log2_lt hwhole.ne').mpr hword
  obtain ⟨hlower, hupper⟩ := Normal.exponent_count hwhole
  refine decide_eq_true ?_
  show UnpackedFloat.le
    (Float.Model.pack (UnpackedFloat.div .binary64 (Float.ofNat part).toModel.unpack
      (Float.ofNat whole).toModel.unpack)).unpack (1.0 : Float).toModel.unpack = true
  rw [Normal.unpack_ofNat hwhole hword, unpack_one]
  rcases Nat.eq_zero_or_pos part with rfl | hpos
  · have hzero : (Float.ofNat 0).toModel.unpack = .zero .positive := rfl
    have hstored : (Float.Model.pack (.zero .positive)).unpack = .zero .positive := rfl
    rw [hzero]
    show UnpackedFloat.le (Float.Model.pack (.zero .positive)).unpack _ = true
    rw [hstored]
    rfl
  · have hpartLog := (Nat.log2_lt hpos.ne').mpr (hpart.trans_lt hword)
    obtain ⟨hlower', hupper'⟩ := Normal.exponent_count hpos
    have hle : Normal.quotient (Normal.count part hpos) (Normal.count whole hwhole) ≤ Normal.one :=
      Normal.quotient_le_one (Normal.count_le_count hpos hwhole hpart)
    have hleast := Normal.le_exponent_quotient (Normal.count part hpos) (Normal.count whole hwhole)
    have hmost :
        (Normal.quotient (Normal.count part hpos) (Normal.count whole hwhole)).exponent ≤ -52 :=
      hle.elim le_of_lt fun h => h.1.le
    rw [Normal.unpack_ofNat hpos (hpart.trans_lt hword), Normal.div_unpacked _ _ (by omega),
      Normal.unpack_pack _ (by omega) (by omega)]
    exact Normal.unpacked_le hle

end Reshape.Similarity
