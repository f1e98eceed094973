import ProtoScript.Eval.Native
import ProtoScript.Eval.Operators
import ProtoScript.Proofs.Decimal.Rounding
import ProtoScript.Proofs.Text.Messages

/-!
# Quotients are rounded to the nearest

The quotient of two decimals is the decimal at the exponent of the dividend that is nearest to the exact
quotient, and of two that are equally near the even one. The quotient of two integers is cut off toward
zero. Both have no value exactly if the divisor is zero.
-/

namespace ProtoScript

namespace Decimal

/-- `d` is the quotient of two decimals: at the exponent of the dividend, nearest to the exact quotient,
and with its sign unless it is zero. -/
structure IsQuotient (a b d : Decimal) : Prop where
  exponent : d.exponent = a.exponent
  rounded : NearestEven (a.toRat / b.toRat / 10 ^ a.exponent) d.signed
  sign : d.negative = true ↔ a.toRat / b.toRat < 0 ∧ d.coefficient ≠ 0

theorem IsQuotient.unique {a b d e : Decimal} (hd : IsQuotient a b d) (he : IsQuotient a b e) :
    d = e := by
  have hsigned : d.signed = e.signed := hd.rounded.unique he.rounded
  have hcoefficient : d.coefficient = e.coefficient := by
    rw [← natAbs_signed, hsigned, natAbs_signed]
  have hnegative : d.negative = e.negative := by
    rw [Bool.eq_iff_iff, hd.sign, he.sign, hcoefficient]
  have hexponent : d.exponent = e.exponent := hd.exponent.trans he.exponent.symm
  obtain ⟨_, _, _⟩ := d
  obtain ⟨_, _, _⟩ := e
  subst hcoefficient hnegative hexponent
  rfl

/-- The quotient of two decimals without their signs, in units of the dividend's exponent. -/
def unsignedQuotient (a b : Decimal) : ℚ :=
  (a.coefficient * Nat.pow 10 (-b.exponent).toNat : Nat) / (b.coefficient * Nat.pow 10 b.exponent.toNat : Nat)

theorem toRat_div_toRat (a b : Decimal) :
    a.toRat / b.toRat / 10 ^ a.exponent =
      if a.negative = b.negative then unsignedQuotient a b else -unsignedQuotient a b := by
  have hpow := (zpow_ten_pos a.exponent).ne'
  have hinv : ((10 : ℚ) ^ b.exponent)⁻¹ = 10 ^ (-b.exponent).toNat / 10 ^ b.exponent.toNat := by
    rw [zpow_ten_eq, inv_div]
  have hcancel :
      a.toRat / b.toRat / 10 ^ a.exponent = a.signed / b.signed * ((10 : ℚ) ^ b.exponent)⁻¹ := by
    rw [toRat, toRat]
    field_simp
  rw [hcancel, hinv, unsignedQuotient]
  cases ha : a.negative <;> cases hb : b.negative <;> simp [signed, ha, hb] <;> ring

/-- The quotient of two decimals, as it is before it is brought to the exponent of the dividend. -/
def wholeQuotient (a b : Decimal) : Decimal :=
  let quotient := divideToEven (a.coefficient * Nat.pow 10 (-b.exponent).toNat)
    (b.coefficient * Nat.pow 10 b.exponent.toNat)
  { negative := quotient ≠ 0 && a.negative != b.negative, coefficient := quotient, exponent := 0 }

/-- The quotient of two decimals, at the exponent of the dividend. -/
def quotient (a b : Decimal) : Decimal :=
  { wholeQuotient a b with exponent := a.exponent }

theorem signed_quotient (a b : Decimal) :
    (quotient a b).signed =
      if a.negative = b.negative then ((quotient a b).coefficient : Int)
      else -(quotient a b).coefficient := by
  by_cases hzero : (quotient a b).coefficient = 0
  · rw [signed_eq_zero_iff.mpr hzero, hzero]
    simp
  · have hsign : (quotient a b).negative = (a.negative != b.negative) := by
      change (decide ((quotient a b).coefficient ≠ 0) && a.negative != b.negative) = _
      simp [hzero]
    rw [signed, hsign]
    cases a.negative <;> cases b.negative <;> rfl

/-- The sign of a quotient other than zero is that of the exact one. -/
theorem negative_quotient_iff (a : Decimal) {b : Decimal} (hb : b.coefficient ≠ 0) :
    (quotient a b).negative = true ↔ a.toRat / b.toRat < 0 ∧ (quotient a b).coefficient ≠ 0 := by
  have hsign : (quotient a b).negative =
      (decide ((quotient a b).coefficient ≠ 0) && a.negative != b.negative) := rfl
  rw [hsign]
  by_cases ha : a.coefficient = 0
  · have hzero : (quotient a b).coefficient = 0 := by
      change divideToEven (a.coefficient * _) _ = 0
      rw [ha, Nat.zero_mul, divideToEven_zero]
    simp [hzero]
  · rw [div_neg_iff, toRat_pos_iff, toRat_pos_iff, toRat_neg_iff, toRat_neg_iff]
    cases a.negative <;> cases b.negative <;> simp [ha, hb]

theorem isQuotient_quotient (a : Decimal) {b : Decimal} (hb : b.coefficient ≠ 0) :
    IsQuotient a b (quotient a b) := by
  have hpos : 0 < b.coefficient * Nat.pow 10 b.exponent.toNat :=
    Nat.mul_pos (Nat.pos_of_ne_zero hb) (Nat.pow_pos (by decide : 0 < 10))
  have hnearest : NearestEven (unsignedQuotient a b) (quotient a b).coefficient :=
    nearestEven_divideToEven _ hpos
  refine ⟨rfl, ?_, negative_quotient_iff a hb⟩
  rw [toRat_div_toRat, signed_quotient]
  split
  · exact hnearest
  · exact hnearest.neg

section Raising

/-- The decimal alone is short enough to be worked with. -/
def Workable (d : Decimal) : Prop :=
  workingPrecision d [] ≤ maxPrecision

instance (d : Decimal) : Decidable d.Workable :=
  inferInstanceAs (Decidable (_ ≤ _))

theorem workingPrecision_self (d : Decimal) : workingPrecision d [] = 2 * d.digitCount + 1 := by
  have hpos : 0 < d.digitCount := Numeral.digitCount_pos _
  have hunfold : workingPrecision d [] = d.digitCount + (d.adjusted - d.exponent).toNat + 2 := rfl
  rw [hunfold, adjusted]
  omega

/-- The working precision of one decimal does not depend on its exponent. -/
theorem workingPrecision_exponent (d : Decimal) (exponent : Int) :
    workingPrecision { d with exponent } [] = workingPrecision d [] := by
  rw [workingPrecision_self, workingPrecision_self]
  rfl

/-- A raised decimal is given as arithmetic gives its results. -/
theorem gives_raised (d : Decimal) (power : Int) :
    Gives (workingPrecision d []) (toRat { d with exponent := d.exponent + power }) (d.exponent + power)
      (d.negative = true) (d.raised power) := by
  refine gives_bounded (d := { d with exponent := d.exponent + power }) ?_
  rw [workingPrecision_self]
  change d.digitCount ≤ _
  omega

theorem raised_of_workable {d : Decimal} (h : d.Workable) (power : Int) :
    d.raised power = fit (workingPrecision d []) { d with exponent := d.exponent + power } := by
  have hbounded : boundedPrecision d [] = .ok (workingPrecision d []) := if_pos h
  rw [raised, hbounded]
  rfl

theorem raised_of_not_workable {d : Decimal} (h : ¬d.Workable) (power : Int) :
    d.raised power = .error .precision := by
  have hbounded : boundedPrecision d [] = .error .precision := if_neg h
  rw [raised, hbounded]
  rfl

/-- At the exponent zero a decimal that can be worked with is within all limits. -/
theorem raised_neg_exponent {d : Decimal} (h : d.Workable) :
    d.raised (-d.exponent) = .ok { d with exponent := 0 } := by
  have hpos : 0 < d.digitCount := Numeral.digitCount_pos _
  have hshort : 2 * d.digitCount + 1 ≤ maxPrecision := by
    rw [← workingPrecision_self]
    exact h
  unfold maxPrecision at hshort
  rw [raised_of_workable h, add_neg_cancel, workingPrecision_self]
  by_cases hc : d.coefficient = 0
  · have hzero : min (max 0 (smallestPower (2 * d.digitCount + 1))) largestPower = 0 := by
      unfold smallestPower largestPower
      omega
    rw [fit_zero (by exact hc), hzero]
  · have hroom : digitCount { d with exponent := 0 } ≤ 2 * d.digitCount + 1 := by
      change d.digitCount ≤ _
      omega
    have hadjusted : ¬largestPower < adjusted { d with exponent := 0 } := by
      change ¬largestPower < (d.digitCount : Int) - 1 + 0
      unfold largestPower
      omega
    have hsmallest : smallestPower (2 * d.digitCount + 1) ≤ 0 := by
      unfold smallestPower largestPower
      omega
    rw [fit_of_ne_zero (by exact hc) hroom, if_neg hadjusted, if_pos hsmallest]

end Raising

/-- An operand that is too long is refused. -/
theorem divide_of_not_workable {a b : Decimal} (h : ¬(a.Workable ∧ b.Workable)) :
    a.divide b = .error .precision := by
  unfold divide
  by_cases ha : a.Workable
  · rw [raised_neg_exponent ha, raised_of_not_workable fun hb => h ⟨ha, hb⟩]
    rfl
  · rw [raised_of_not_workable ha]
    rfl

theorem divide_of_workable {a b : Decimal} (ha : a.Workable) (hb : b.Workable) :
    a.divide b =
      if maxPrecision < (quotient a b).digitCount then .error .length
      else (wholeQuotient a b).raised a.exponent := by
  unfold divide
  rw [raised_neg_exponent ha, raised_neg_exponent hb]
  change (if maxPrecision < (quotient a b).digitCount then Except.error Limit.length else _) >>= _ = _
  split <;> rfl

theorem gives_divide {a b : Decimal} (ha : a.Workable) (hb : b.Workable)
    (hq : (quotient a b).digitCount ≤ maxPrecision) :
    Gives (workingPrecision (quotient a b) []) (quotient a b).toRat a.exponent
      ((quotient a b).negative = true) (a.divide b) := by
  have hgives := gives_raised (wholeQuotient a b) a.exponent
  have hexponent : (wholeQuotient a b).exponent + a.exponent = a.exponent := zero_add _
  rw [hexponent, ← workingPrecision_exponent (wholeQuotient a b) a.exponent] at hgives
  rw [divide_of_workable ha hb, if_neg (not_lt.mpr hq)]
  exact hgives

end Decimal

namespace Eval

theorem ofError_divisionByZero (shown : String) :
    Fault.ofError { cause := .divisionByZero shown } = .error { cause := .divisionByZero shown } :=
  Fault.ofError_of_legible trivial

theorem divide_decimals (a b : Decimal) (s : State) :
    divide (.decimal a) (.decimal b) s =
      if b.coefficient = 0 then
        .error (.error { cause := .divisionByZero (a.scientific ++ " / " ++ b.scientific) }) s
      else ofDecimal (a.divide b) s := by
  have happly : divide (.decimal a) (.decimal b) s =
      (if b.coefficient = 0 then
        raise (.divisionByZero (a.scientific ++ " / " ++ b.scientific)) >>= fun () => ofDecimal (a.divide b)
      else ofDecimal (a.divide b)) s := rfl
  rw [happly, ← ofError_divisionByZero]
  split <;> rfl

/-- Arithmetic on decimals never fails with an error of the language. -/
theorem ofDecimal_ne_error (r : Except Decimal.Limit Decimal) (e : EvalError) (s : State) :
    ofDecimal r s ≠ .error (.error e) s := by
  intro h
  cases r <;> cases h

theorem divide_integers (a b : Int) (s : State) :
    divide (.int a) (.int b) s =
      (if b = 0 then
        ofExcept (displayInt a) >>= fun dividend =>
          raise (.divisionByZero (dividend ++ " / " ++ Numeral.ofInt b)) >>= fun () =>
            return Value.int (a.tdiv b)
      else return Value.int (a.tdiv b)) s :=
  rfl

theorem divide_integers_of_ne (a : Int) {b : Int} (hb : b ≠ 0) (s : State) :
    divide (.int a) (.int b) s = .ok (.int (a.tdiv b)) s := by
  rw [divide_integers, if_neg hb]
  rfl

/-- The message shows the dividend, so it must be short enough to be written. -/
theorem divide_integers_zero {a : Int} (ha : Numeral.writable a = true) (s : State) :
    divide (.int a) (.int 0) s =
      .error (.error { cause := .divisionByZero (Numeral.ofInt a ++ " / " ++ Numeral.ofInt 0) }) s := by
  rw [divide_integers, if_pos rfl, displayInt, if_pos ha, ← ofError_divisionByZero]
  rfl

/-- The quotient that is cut off toward zero leaves a remainder with the sign of the dividend. -/
theorem tdiv_spec (a : Int) {b : Int} (hb : b ≠ 0) :
    a = a.tdiv b * b + a.tmod b ∧ |a.tmod b| < |b| ∧ (a.tmod b = 0 ∨ (a.tmod b).sign = a.sign) := by
  refine ⟨(Int.tdiv_mul_add_tmod a b).symm, ?_, ?_⟩
  · rw [Int.abs_eq_natAbs, Int.abs_eq_natAbs, Int.natAbs_tmod]
    exact_mod_cast Nat.mod_lt _ (Int.natAbs_pos.mpr hb)
  · by_cases hdvd : b ∣ a
    · exact .inl (Int.tmod_eq_zero_of_dvd hdvd)
    · exact .inr ((Int.sign_tmod a b).trans (if_neg hdvd))

/-- There is one decimal at the exponent of the dividend that is nearest to the exact quotient of two
decimals, ties going to the even one; it has the sign of the exact quotient, but a zero has none. A division
gives this decimal as long as it and the operands are within the limits of decimals. The quotient of two
integers is cut off toward zero. A division by zero is reported exactly if the divisor is zero, for integers
as long as the dividend can be shown. -/
theorem division_rounds_to_nearest (s : State) :
    (∀ a b : Decimal, b.toRat ≠ 0 → ∃! d, a.IsQuotient b d) ∧
    (∀ a b d : Decimal, b.toRat ≠ 0 → a.IsQuotient b d →
      ∃ r, divide (.decimal a) (.decimal b) s = ofDecimal r s ∧
        (¬(a.Workable ∧ b.Workable) → r = .error .precision) ∧
        (a.Workable → b.Workable → Decimal.maxPrecision < d.digitCount → r = .error .length) ∧
        (a.Workable → b.Workable → d.digitCount ≤ Decimal.maxPrecision →
          Decimal.Gives (d.workingPrecision []) d.toRat a.exponent (d.negative = true) r)) ∧
    (∀ a b : Int, b ≠ 0 → ∃ q r : Int, divide (.int a) (.int b) s = .ok (.int q) s ∧
      a = q * b + r ∧ |r| < |b| ∧ (r = 0 ∨ r.sign = a.sign)) ∧
    (∀ a b : Decimal,
      (∃ shown, divide (.decimal a) (.decimal b) s = .error (.error { cause := .divisionByZero shown }) s) ↔
        b.toRat = 0) ∧
    ∀ a b : Int, Numeral.digitCount a.natAbs ≤ 4300 →
      ((∃ shown, divide (.int a) (.int b) s = .error (.error { cause := .divisionByZero shown }) s) ↔
        b = 0) := by
  refine ⟨?_, ?_, ?_, ?_, ?_⟩
  · intro a b hb
    rw [ne_eq, Decimal.toRat_eq_zero_iff] at hb
    have hquotient := Decimal.isQuotient_quotient a hb
    exact ⟨_, hquotient, fun d hd => hd.unique hquotient⟩
  · intro a b d hb hd
    rw [ne_eq, Decimal.toRat_eq_zero_iff] at hb
    obtain rfl : d = a.quotient b := hd.unique (Decimal.isQuotient_quotient a hb)
    refine ⟨a.divide b, (divide_decimals a b s).trans (if_neg hb), Decimal.divide_of_not_workable, ?_,
      Decimal.gives_divide⟩
    intro ha hb hlong
    rw [Decimal.divide_of_workable ha hb, if_pos hlong]
  · intro a b hb
    exact ⟨a.tdiv b, a.tmod b, divide_integers_of_ne a hb s, tdiv_spec a hb⟩
  · intro a b
    rw [Decimal.toRat_eq_zero_iff, divide_decimals]
    split
    · next hb => exact ⟨fun _ => hb, fun _ => ⟨_, rfl⟩⟩
    · next hb =>
        refine ⟨?_, fun h => absurd h hb⟩
        rintro ⟨shown, h⟩
        exact absurd h (ofDecimal_ne_error _ _ s)
  · intro a b ha
    constructor
    · rintro ⟨shown, h⟩
      by_contra hb
      rw [divide_integers_of_ne a hb] at h
      cases h
    · rintro rfl
      exact ⟨_, divide_integers_zero ((Numeral.writable_iff a).mpr ha) s⟩

/-- Minus two and a half is rounded to the even neighbour, minus seven halves are cut off to minus three,
and a zero divisor may have a sign and a scale. -/
theorem division_rounds_to_nearest_tie :
    (∃! d, (⟨true, 5, 0⟩ : Decimal).IsQuotient ⟨false, 2, 0⟩ d) ∧
    (∃ r, divide (.decimal ⟨true, 5, 0⟩) (.decimal ⟨false, 2, 0⟩) .initial = ofDecimal r .initial ∧
      Decimal.Gives 3 (Decimal.toRat ⟨true, 2, 0⟩) 0 (true = true) r) ∧
    (∃ q r : Int, divide (.int (-7)) (.int 2) .initial = .ok (.int q) .initial ∧
      -7 = q * 2 + r ∧ |r| < |2| ∧ (r = 0 ∨ r.sign = (-7 : Int).sign)) ∧
    (∃ shown, divide (.decimal ⟨true, 5, 0⟩) (.decimal ⟨true, 0, -2⟩) .initial =
      .error (.error { cause := .divisionByZero shown }) .initial) ∧
    ∃ shown, divide (.int (-7)) (.int 0) .initial =
      .error (.error { cause := .divisionByZero shown }) .initial := by
  obtain ⟨hunique, hdecimal, hint, hzero, hzero'⟩ := division_rounds_to_nearest .initial
  have hne : (⟨false, 2, 0⟩ : Decimal).toRat ≠ 0 := by
    rw [ne_eq, Decimal.toRat_eq_zero_iff]
    decide
  have hquotient : (⟨true, 5, 0⟩ : Decimal).IsQuotient ⟨false, 2, 0⟩ ⟨true, 2, 0⟩ :=
    Decimal.isQuotient_quotient ⟨true, 5, 0⟩ (by decide)
  obtain ⟨r, hdivide, -, -, hgives⟩ := hdecimal _ _ _ hne hquotient
  refine ⟨hunique _ _ hne, ⟨r, hdivide, hgives (by decide) (by decide) (by decide)⟩,
    hint (-7) 2 (by decide), (hzero _ _).mpr ?_, (hzero' (-7) 0 ?_).mpr rfl⟩
  · rw [Decimal.toRat_eq_zero_iff]
  · decide

/-- A number that can be held, divided by one, is lost: its quotient is rounded at a larger power of ten. -/
theorem small_quotient_rounded_to_zero :
    let a : Decimal := ⟨false, 1, -1000000000000000010⟩
    let b : Decimal := ⟨false, 1, 0⟩
    Literal.representable a = true ∧ a.IsQuotient b a ∧
      divide (.decimal a) (.decimal b) .initial =
        .ok (.decimal ⟨false, 0, -1000000000000000001⟩) .initial := by
  have hdivide : (⟨false, 1, -1000000000000000010⟩ : Decimal).divide ⟨false, 1, 0⟩ =
      .ok ⟨false, 0, -1000000000000000001⟩ := rfl
  intro a b
  have hb : b.coefficient ≠ 0 := by decide
  have hquotient : a.quotient b = a := by decide
  have hnearest := Decimal.isQuotient_quotient a hb
  rw [hquotient] at hnearest
  refine ⟨by decide, hnearest, ?_⟩
  rw [divide_decimals, if_neg hb, hdivide]
  rfl

end Eval

end ProtoScript
