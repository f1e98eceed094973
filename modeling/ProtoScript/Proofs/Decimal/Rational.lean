import Mathlib.Algebra.Order.Field.Rat
import Mathlib.Tactic.FieldSimp
import Mathlib.Tactic.Linarith
import Mathlib.Tactic.Positivity
import Mathlib.Tactic.Ring
import ProtoScript.Decimal.Arithmetic
import ProtoScript.Proofs.Numeral

/-!
# The number that a decimal stands for

A decimal stands for a rational number, and two decimals of one exponent that stand for the same number
differ at most in the sign of zero.
-/

namespace ProtoScript

/-- A power of ten with a negative exponent is a fraction of natural powers. -/
theorem zpow_ten_eq (e : Int) : (10 : ℚ) ^ e = 10 ^ e.toNat / 10 ^ (-e).toNat := by
  rcases Int.le_total 0 e with he | he
  · have hneg : (-e).toNat = 0 := by omega
    have hpow : (10 : ℚ) ^ (e.toNat : ℤ) = 10 ^ e.toNat := zpow_natCast 10 e.toNat
    rw [hneg, pow_zero, div_one, ← hpow, Int.toNat_of_nonneg he]
  · have hpos : e.toNat = 0 := by omega
    have hpow : (10 : ℚ) ^ ((-e).toNat : ℤ) = 10 ^ (-e).toNat := zpow_natCast 10 (-e).toNat
    rw [hpos, pow_zero, one_div, ← hpow, Int.toNat_of_nonneg (by omega), zpow_neg, inv_inv]

theorem zpow_ten_pos (e : Int) : (0 : ℚ) < 10 ^ e :=
  zpow_pos (by norm_num) e

namespace Decimal

/-- The rational number that a decimal stands for. -/
def toRat (d : Decimal) : ℚ :=
  d.signed * 10 ^ d.exponent

/-- A zero with a minus sign, whatever its exponent. -/
def IsNegativeZero (d : Decimal) : Prop :=
  d.negative = true ∧ d.coefficient = 0

theorem natAbs_signed (d : Decimal) : d.signed.natAbs = d.coefficient := by
  unfold signed
  split <;> simp

@[simp] theorem signed_eq_zero_iff {d : Decimal} : d.signed = 0 ↔ d.coefficient = 0 := by
  rw [← natAbs_signed, Int.natAbs_eq_zero]

theorem signed_neg_iff {d : Decimal} : d.signed < 0 ↔ d.negative = true ∧ d.coefficient ≠ 0 := by
  unfold signed
  split
  · next h => simp [h]; omega
  · next h => simp [h]

theorem toRat_eq_zero_iff {d : Decimal} : d.toRat = 0 ↔ d.coefficient = 0 := by
  have hpow := (zpow_ten_pos d.exponent).ne'
  simp [toRat, hpow]

theorem toRat_neg_iff {d : Decimal} : d.toRat < 0 ↔ d.negative = true ∧ d.coefficient ≠ 0 := by
  have hpow := zpow_ten_pos d.exponent
  rw [← signed_neg_iff, toRat, ← Int.cast_lt_zero (R := ℚ)]
  constructor
  · intro h
    exact neg_of_mul_neg_left h hpow.le
  · intro h
    exact mul_neg_of_neg_of_pos h hpow

theorem toRat_pos_iff {d : Decimal} : 0 < d.toRat ↔ d.negative = false ∧ d.coefficient ≠ 0 := by
  rw [← not_le, le_iff_lt_or_eq, toRat_neg_iff, toRat_eq_zero_iff]
  cases d.negative <;> simp

theorem toRat_nonpos_of_negative {d : Decimal} (h : d.negative = true) : d.toRat ≤ 0 := by
  by_cases hc : d.coefficient = 0
  · exact (toRat_eq_zero_iff.mpr hc).le
  · exact (toRat_neg_iff.mpr ⟨h, hc⟩).le

theorem signed_negate (d : Decimal) : d.negate.signed = -d.signed := by
  cases h : d.negative <;> simp [signed, negate, h]

theorem toRat_negate (d : Decimal) : d.negate.toRat = -d.toRat := by
  rw [toRat, toRat, signed_negate, Int.cast_neg, neg_mul]
  rfl

/-- A finer scale gives the same number. -/
theorem scaled_mul_zpow {d : Decimal} {scale : Int} (h : scale ≤ d.exponent) :
    (d.scaled scale : ℚ) * 10 ^ scale = d.toRat := by
  have hsplit : (10 : ℚ) ^ d.exponent = 10 ^ (d.exponent - scale).toNat * 10 ^ scale := by
    rw [← zpow_natCast, ← zpow_add₀ (by norm_num), Int.toNat_of_nonneg (by omega), sub_add_cancel]
  have hscaled : (d.scaled scale : ℚ) = d.signed * 10 ^ (d.exponent - scale).toNat := by
    simp only [scaled, Int.pow_eq, Int.cast_mul, Int.cast_pow, Int.cast_ofNat]
  rw [hscaled, toRat, hsplit, mul_assoc]

theorem natAbs_scaled (d : Decimal) (scale : Int) :
    (d.scaled scale).natAbs = d.coefficient * 10 ^ (d.exponent - scale).toNat := by
  rw [scaled, Int.natAbs_mul, natAbs_signed, Int.pow_eq, Int.natAbs_pow]
  rfl

/-- A multiple of the power of ten that a decimal counts in is counted by its coefficient. -/
theorem eq_signed_of_mul_zpow {d : Decimal} {n : Int} (h : (n : ℚ) * 10 ^ d.exponent = d.toRat) :
    n = d.signed := by
  have hcancel : (n : ℚ) = d.signed := mul_right_cancel₀ (zpow_ten_pos d.exponent).ne' h
  exact_mod_cast hcancel

end Decimal

end ProtoScript
