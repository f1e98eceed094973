import ProtoScript.Eval.Native
import ProtoScript.Eval.Operators
import ProtoScript.Proofs.Decimal.Rounding

/-!
# Sums and products are exact within the limits

The working precision leaves room for every digit of a sum, a difference or a product, however far apart
the exponents of the operands are. So the result is not rounded to fewer digits: within the limits of decimals
it stands for the exact number, and its exponent is the finer one of the operands, or their sum for a product.
The working precision itself can be beyond the limits, also where the exact result is not.
-/

namespace ProtoScript.Decimal

/-- The precision has room for all digits that the exact number has at the given scale. -/
def HasRoom (precision : Nat) (exact : ℚ) (scale : Int) : Prop :=
  ∀ n : Int, (n : ℚ) * 10 ^ scale = exact → Numeral.digitCount n.natAbs ≤ precision

theorem hasRoom_of_digitCount_le {precision : Nat} {d : Decimal} (h : d.digitCount ≤ precision) :
    HasRoom precision d.toRat d.exponent := by
  intro n hn
  rw [eq_signed_of_mul_zpow hn, natAbs_signed]
  exact h

theorem workingPrecision_pair (a b : Decimal) :
    workingPrecision a [b] =
      a.digitCount + b.digitCount + (max a.adjusted b.adjusted - commonScale a b).toNat + 2 :=
  rfl

/-- At a finer scale an operand reaches up to the power of ten of its first digit. -/
theorem natAbs_scaled_lt {d : Decimal} {scale top : Int} (hs : scale ≤ d.exponent)
    (ht : d.adjusted ≤ top) : (d.scaled scale).natAbs < 10 ^ ((top - scale).toNat + 1) := by
  have hpos : 0 < d.digitCount := Numeral.digitCount_pos _
  have hdigits : d.digitCount + (d.exponent - scale).toNat ≤ (top - scale).toNat + 1 := by
    unfold adjusted at ht
    omega
  calc
    (d.scaled scale).natAbs = d.coefficient * 10 ^ (d.exponent - scale).toNat := natAbs_scaled d scale
    _ < 10 ^ d.digitCount * 10 ^ (d.exponent - scale).toNat :=
      Nat.mul_lt_mul_of_pos_right d.coefficient_lt (Nat.pow_pos (by decide))
    _ = 10 ^ (d.digitCount + (d.exponent - scale).toNat) := (Nat.pow_add _ _ _).symm
    _ ≤ 10 ^ ((top - scale).toNat + 1) := Nat.pow_le_pow_right (by decide) hdigits

section Sum
variable (a b : Decimal)

/-- Two operands have one more digit together than the larger of them at most. -/
theorem digitCount_sum_le : (sum a b).digitCount ≤ workingPrecision a [b] := by
  have ha := natAbs_scaled_lt (d := a) (Int.min_le_left a.exponent b.exponent)
    (Int.le_max_left a.adjusted b.adjusted)
  have hb := natAbs_scaled_lt (d := b) (Int.min_le_right a.exponent b.exponent)
    (Int.le_max_right a.adjusted b.adjusted)
  have hadd := Int.natAbs_add_le (a.scaled (commonScale a b)) (b.scaled (commonScale a b))
  have hroom : (max a.adjusted b.adjusted - commonScale a b).toNat + 2 ≤ workingPrecision a [b] := by
    rw [workingPrecision_pair]
    omega
  refine Nat.le_trans ?_ hroom
  refine (Numeral.digitCount_le_iff (Nat.succ_pos _)).mpr ?_
  change (a.scaled (commonScale a b) + b.scaled (commonScale a b)).natAbs < _
  unfold commonScale at *
  rw [Nat.pow_succ]
  omega

/-- The sum at the common scale has the sign that was chosen for it. -/
theorem signed_sum :
    (sum a b).signed = a.scaled (commonScale a b) + b.scaled (commonScale a b) := by
  simp only [sum, signed]
  by_cases hzero : a.scaled (commonScale a b) + b.scaled (commonScale a b) = 0
  · simp [hzero]
  · simp only [hzero, if_false, decide_eq_true_eq]
    split <;> omega

theorem toRat_sum : (sum a b).toRat = a.toRat + b.toRat := by
  rw [toRat, signed_sum, Int.cast_add, add_mul]
  exact congrArg₂ (· + ·) (scaled_mul_zpow (Int.min_le_left _ _))
    (scaled_mul_zpow (Int.min_le_right _ _))

/-- A sum below zero has a minus sign, and so has the sum of two zeros with one. -/
theorem negative_sum_iff :
    (sum a b).negative = true ↔ a.toRat + b.toRat < 0 ∨ (a.IsNegativeZero ∧ b.IsNegativeZero) := by
  rw [← toRat_sum, toRat_neg_iff]
  by_cases hc : (sum a b).coefficient = 0
  · have hsign : (sum a b).negative = (a.negative && b.negative) := if_pos (Int.natAbs_eq_zero.mp hc)
    have htotal : a.toRat + b.toRat = 0 := by rw [← toRat_sum, toRat_eq_zero_iff, hc]
    rw [hsign, Bool.and_eq_true]
    constructor
    · -- Two numbers that are not above zero cancel only if both are zero.
      rintro ⟨ha, hb⟩
      have hale := toRat_nonpos_of_negative ha
      have hble := toRat_nonpos_of_negative hb
      have hazero : a.toRat = 0 := by linarith
      have hbzero : b.toRat = 0 := by linarith
      exact .inr ⟨⟨ha, toRat_eq_zero_iff.mp hazero⟩, hb, toRat_eq_zero_iff.mp hbzero⟩
    · rintro (⟨-, hne⟩ | ⟨ha, hb⟩)
      · exact absurd hc hne
      · exact ⟨ha.1, hb.1⟩
  · constructor
    · intro h
      exact .inl ⟨h, hc⟩
    · rintro (⟨h, -⟩ | ⟨ha, hb⟩)
      · exact h
      · refine absurd ?_ hc
        rw [← toRat_eq_zero_iff, toRat_sum, toRat_eq_zero_iff.mpr ha.2, toRat_eq_zero_iff.mpr hb.2, add_zero]

end Sum

section Product
variable (a b : Decimal)

theorem digitCount_product_le : (product a b).digitCount ≤ workingPrecision a [b] := by
  have hpos : 0 < a.digitCount := Numeral.digitCount_pos _
  have hroom : a.digitCount + b.digitCount ≤ workingPrecision a [b] := by
    rw [workingPrecision_pair]
    omega
  refine Nat.le_trans ?_ hroom
  refine (Numeral.digitCount_le_iff (Nat.add_pos_left hpos _)).mpr ?_
  rw [Nat.pow_add]
  exact Nat.mul_lt_mul'' a.coefficient_lt b.coefficient_lt

theorem signed_product : (product a b).signed = a.signed * b.signed := by
  cases ha : a.negative <;> cases hb : b.negative <;> simp [product, signed, ha, hb]

theorem toRat_product : (product a b).toRat = a.toRat * b.toRat := by
  have hpow : (10 : ℚ) ^ (a.exponent + b.exponent) = 10 ^ a.exponent * 10 ^ b.exponent :=
    zpow_add₀ (by norm_num) _ _
  calc
    (product a b).toRat = (a.signed * b.signed : Int) * 10 ^ (a.exponent + b.exponent) := by
      rw [toRat, signed_product]; rfl
    _ = a.toRat * b.toRat := by rw [hpow, toRat, toRat, Int.cast_mul]; ring

end Product

theorem workingPrecision_negate (a b : Decimal) : workingPrecision a [b.negate] = workingPrecision a [b] :=
  rfl

theorem gives_add (a b : Decimal) :
    Gives (workingPrecision a [b]) (a.toRat + b.toRat) (min a.exponent b.exponent)
      (a.toRat + b.toRat < 0 ∨ (a.IsNegativeZero ∧ b.IsNegativeZero)) (a.add b) := by
  have hgives := gives_bounded (digitCount_sum_le a b)
  rw [toRat_sum, negative_sum_iff] at hgives
  exact hgives

theorem gives_subtract (a b : Decimal) :
    Gives (workingPrecision a [b]) (a.toRat - b.toRat) (min a.exponent b.exponent)
      (a.toRat - b.toRat < 0 ∨ (a.IsNegativeZero ∧ b.negate.IsNegativeZero)) (a.subtract b) := by
  have hgives := gives_add a b.negate
  rw [workingPrecision_negate, toRat_negate, ← sub_eq_add_neg] at hgives
  exact hgives

theorem gives_multiply (a b : Decimal) :
    Gives (workingPrecision a [b]) (a.toRat * b.toRat) (a.exponent + b.exponent)
      ((a.negative ^^ b.negative) = true) (a.multiply b) := by
  have hgives := gives_bounded (digitCount_product_le a b)
  rw [toRat_product] at hgives
  have hsign : (product a b).negative = (a.negative ^^ b.negative) := by
    cases ha : a.negative <;> cases hb : b.negative <;> simp [product, ha, hb]
  rw [hsign] at hgives
  exact hgives

/-- The working precision of two decimals always has room for the digits of their sum, difference and product.
So these are given without rounding as long as the precision and the exact result are within the limits of
decimals. A sum or difference has a minus sign if it is below zero, or if it comes from two zeros with that
sign; a product has one if exactly one factor has it, even if it is zero. -/
theorem arithmetic_exact_within_limits (a b : Decimal) (s : State) :
    (∃ r, Eval.add (.decimal a) (.decimal b) s = Eval.ofDecimal r s ∧
      HasRoom (workingPrecision a [b]) (a.toRat + b.toRat) (min a.exponent b.exponent) ∧
      Gives (workingPrecision a [b]) (a.toRat + b.toRat) (min a.exponent b.exponent)
        (a.toRat + b.toRat < 0 ∨ (a.IsNegativeZero ∧ b.IsNegativeZero)) r) ∧
    (∃ r, Eval.subtract (.decimal a) (.decimal b) s = Eval.ofDecimal r s ∧
      HasRoom (workingPrecision a [b]) (a.toRat - b.toRat) (min a.exponent b.exponent) ∧
      Gives (workingPrecision a [b]) (a.toRat - b.toRat) (min a.exponent b.exponent)
        (a.toRat - b.toRat < 0 ∨ (a.IsNegativeZero ∧ b.negate.IsNegativeZero)) r) ∧
    (∃ r, Eval.multiply (.decimal a) (.decimal b) s = Eval.ofDecimal r s ∧
      HasRoom (workingPrecision a [b]) (a.toRat * b.toRat) (a.exponent + b.exponent) ∧
      Gives (workingPrecision a [b]) (a.toRat * b.toRat) (a.exponent + b.exponent)
        ((a.negative ^^ b.negative) = true) r) := by
  have hsum (c : Decimal) :
      HasRoom (workingPrecision a [c]) (a.toRat + c.toRat) (min a.exponent c.exponent) := by
    rw [← toRat_sum]
    exact hasRoom_of_digitCount_le (digitCount_sum_le a c)
  refine ⟨⟨a.add b, rfl, hsum b, gives_add a b⟩, ⟨a.subtract b, rfl, ?_, gives_subtract a b⟩,
    ⟨a.multiply b, rfl, ?_, gives_multiply a b⟩⟩
  · have hdifference := hsum b.negate
    rw [workingPrecision_negate, toRat_negate, ← sub_eq_add_neg] at hdifference
    exact hdifference
  · rw [← toRat_product]
    exact hasRoom_of_digitCount_le (digitCount_product_le a b)

/-- The factors and their product can be held, but the working precision is beyond the limit. -/
theorem product_refused_for_precision :
    let a : Decimal := ⟨false, 1, 879600506127777792⟩
    let b : Decimal := ⟨false, 1, -879609302220800000⟩
    Literal.representable a = true ∧ Literal.representable b = true ∧
      Literal.representable (product a b) = true ∧ (product a b).toRat = a.toRat * b.toRat ∧
      Eval.multiply (.decimal a) (.decimal b) .initial =
        .error (.breakdown (.limit .precision)) .initial :=
  ⟨by decide, by decide, by decide, toRat_product _ _, rfl⟩

end ProtoScript.Decimal
