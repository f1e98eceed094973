import ProtoScript.Proofs.Decimal.Rational

/-!
# Rounding and the limits of decimals

A number is rounded to the nearest integer, and to the even one if two are as near. What arithmetic gives
follows from its exact result, the exponent that this has, and the working precision: the result itself, as
long as it is within the limits; a rounded one below them, and none above them.
-/

namespace ProtoScript

/-- `n` is the integer nearest to `q`, and even if another integer is as near. -/
structure NearestEven (q : ℚ) (n : Int) : Prop where
  nearest (m : Int) : |q - n| ≤ |q - m|
  even {m : Int} (hne : m ≠ n) (htie : |q - m| = |q - n|) : Even n

theorem one_le_abs_sub_cast {m n : Int} (h : m ≠ n) : (1 : ℚ) ≤ |(n : ℚ) - m| := by
  have hpos : 0 < |n - m| := abs_pos.mpr (sub_ne_zero.mpr h.symm)
  exact_mod_cast hpos

namespace NearestEven
variable {q : ℚ} {n m : Int}

/-- No other integer is nearer than one half. -/
theorem of_half (hn : |q - n| ≤ 1 / 2) (he : |q - n| = 1 / 2 → Even n) : NearestEven q n := by
  have hapart {m : Int} (hm : m ≠ n) : 1 ≤ |q - m| + |q - n| := by
    have hsplit : (n : ℚ) - m = (q - m) - (q - n) := by ring
    have htriangle := abs_sub (q - m) (q - n)
    rw [← hsplit] at htriangle
    exact (one_le_abs_sub_cast hm).trans htriangle
  constructor
  · intro m
    by_cases hm : m = n
    · rw [hm]
    · have := hapart hm
      linarith
  · intro m hm htie
    have := hapart hm
    exact he (by linarith)

/-- A number is rounded down from the lower half of the way to the next integer. -/
theorem of_lower {part : ℚ} (hlow : 0 ≤ part) (hhigh : part ≤ 1 / 2) (he : part = 1 / 2 → Even n) :
    NearestEven (n + part) n := by
  have hdistance : |n + part - n| = part := by rw [add_sub_cancel_left, abs_of_nonneg hlow]
  rw [← hdistance] at hhigh he
  exact .of_half hhigh he

/-- It is rounded up from the upper half. -/
theorem of_upper {part : ℚ} (hlow : 1 / 2 ≤ part) (hhigh : part ≤ 1)
    (he : part = 1 / 2 → Even (n + 1)) : NearestEven (n + part) (n + 1 : Int) := by
  have hdistance : |n + part - (n + 1 : Int)| = 1 - part := by
    rw [abs_sub_comm, abs_of_nonneg] <;> push_cast <;> linarith
  refine .of_half ?_ ?_
  · rw [hdistance]
    linarith
  · intro htie
    rw [hdistance] at htie
    exact he (by linarith)

theorem neg (h : NearestEven q n) : NearestEven (-q) (-n) := by
  have hflip (m : Int) : |-q - m| = |q - (-m : Int)| := by
    rw [← abs_neg, Int.cast_neg]
    congr 1
    ring
  have hself : |-q - (-n : Int)| = |q - n| := by rw [hflip, neg_neg]
  constructor
  · intro m
    rw [hself, hflip]
    exact h.nearest (-m)
  · intro m hm htie
    rw [hself, hflip] at htie
    exact (h.even (by omega) htie).neg

/-- A nearest integer below zero is that of a number below zero, as zero itself is nearer to any other. -/
theorem neg_of_neg (h : NearestEven q n) (hn : n < 0) : q < 0 := by
  by_contra hq
  rw [not_lt] at hq
  have hcast : (n : ℚ) < 0 := by exact_mod_cast hn
  have hzero := h.nearest 0
  rw [Int.cast_zero, sub_zero, abs_of_nonneg hq, abs_of_pos (by linarith)] at hzero
  linarith

theorem nonpos_of_neg (h : NearestEven q n) (hq : q < 0) : n ≤ 0 := by
  by_contra hn
  have hneg := h.neg.neg_of_neg (n := -n) (by omega)
  linarith

/-- Two nearest integers on both sides of a number would be even, and the integer between them nearer. -/
theorem unique (hn : NearestEven q n) (hm : NearestEven q m) : n = m := by
  by_contra hne
  have hsame : |q - m| = |q - n| := le_antisymm (hm.nearest n) (hn.nearest m)
  obtain ⟨j, hj⟩ := hn.even (Ne.symm hne) hsame
  obtain ⟨k, hk⟩ := hm.even hne hsame.symm
  have hcast : (m : ℚ) ≠ n := fun h => hne (by exact_mod_cast h.symm)
  have hmiddle : q = (j + k : Int) := by
    rcases abs_eq_abs.mp hsame with h | h
    · exact absurd (by linarith) hcast
    · rw [hj, hk] at h
      push_cast at h ⊢
      linarith
  have hnear := hn.nearest (j + k)
  have hfar := hm.nearest (j + k)
  rw [← hmiddle, sub_self, abs_zero] at hnear hfar
  have hqn := abs_nonpos_iff.mp hnear
  have hqm := abs_nonpos_iff.mp hfar
  exact hcast (by linarith)

end NearestEven

/-- The remainder decides between the two integers around a quotient. -/
theorem nearestEven_divideToEven (numerator : Nat) {denominator : Nat} (hd : 0 < denominator) :
    NearestEven (numerator / denominator : ℚ) (divideToEven numerator denominator) := by
  have hpos : (0 : ℚ) < denominator := by exact_mod_cast hd
  have hlt : numerator % denominator < denominator := Nat.mod_lt _ hd
  have hsplit : (numerator / denominator : ℚ) =
      ((numerator / denominator : Nat) : Int) + (numerator % denominator : Nat) / (denominator : ℚ) := by
    have hmod :
        ((denominator * (numerator / denominator) + numerator % denominator : Nat) : ℚ) = numerator := by
      rw [Nat.div_add_mod]
    rw [← hmod, Nat.cast_add, Nat.cast_mul, add_div, mul_div_cancel_left₀ _ hpos.ne', Int.cast_natCast]
  rw [hsplit]
  unfold divideToEven
  generalize numerator / denominator = quotient
  generalize numerator % denominator = remainder at hlt
  have hhalf : (remainder / denominator : ℚ) = 1 / 2 ↔ 2 * remainder = denominator := by
    rw [div_eq_div_iff hpos.ne' two_ne_zero, one_mul, mul_comm]
    exact_mod_cast Iff.rfl
  simp only
  split
  · next hup =>
      refine .of_upper ?_ ?_ ?_
      · rw [div_le_div_iff₀ two_pos hpos, one_mul, mul_comm]
        exact_mod_cast (by omega : denominator ≤ 2 * remainder)
      · rw [div_le_one hpos]
        exact_mod_cast hlt.le
      · intro htie
        rw [hhalf] at htie
        rw [Int.even_iff]
        omega
  · next hdown =>
      refine .of_lower (by positivity) ?_ ?_
      · rw [div_le_div_iff₀ hpos two_pos, one_mul, mul_comm]
        exact_mod_cast (by omega : 2 * remainder ≤ denominator)
      · intro htie
        rw [hhalf] at htie
        rw [Int.even_iff]
        omega

theorem divideToEven_zero (denominator : Nat) : divideToEven 0 denominator = 0 := by
  simp [divideToEven]

theorem divideToEven_le (numerator : Nat) {denominator : Nat} (hd : 2 ≤ denominator) :
    divideToEven numerator denominator ≤ numerator := by
  have hsplit := Nat.div_add_mod numerator denominator
  have hdouble : 2 * (numerator / denominator) ≤ denominator * (numerator / denominator) :=
    Nat.mul_le_mul_right _ hd
  unfold divideToEven
  simp only
  split <;> omega

namespace Decimal
variable {precision : Nat} {d : Decimal}

theorem coefficient_lt (d : Decimal) : d.coefficient < 10 ^ d.digitCount :=
  (Numeral.digitCount_le_iff (Numeral.digitCount_pos _)).mp (Nat.le_refl _)

/-- The first digit of a number other than zero is no zero. -/
theorem le_coefficient (hc : d.coefficient ≠ 0) : 10 ^ (d.digitCount - 1) ≤ d.coefficient := by
  have hpos : 0 < d.digitCount := Numeral.digitCount_pos _
  by_contra hlt
  rw [not_le] at hlt
  by_cases hone : d.digitCount - 1 = 0
  · rw [hone, pow_zero] at hlt
    omega
  · have hle := (Numeral.digitCount_le_iff (Nat.pos_of_ne_zero hone)).mpr hlt
    change d.digitCount ≤ d.digitCount - 1 at hle
    omega

theorem abs_toRat (d : Decimal) : |d.toRat| = d.coefficient * 10 ^ d.exponent := by
  have hsigned : |(d.signed : ℚ)| = d.coefficient := by
    rw [← natAbs_signed, Nat.cast_natAbs, Int.cast_abs]
  rw [toRat, abs_mul, hsigned, abs_of_pos (zpow_ten_pos _)]

/-- The size of a number is told by the power of ten of its first digit. -/
theorem zpow_le_abs_toRat_iff (hc : d.coefficient ≠ 0) {power : Int} :
    (10 : ℚ) ^ power ≤ |d.toRat| ↔ power ≤ d.adjusted := by
  have hpos : 0 < d.digitCount := Numeral.digitCount_pos _
  have hten : (1 : ℚ) < 10 := by norm_num
  have hnatural (n : Nat) : ((10 : ℚ) ^ n) * 10 ^ d.exponent = 10 ^ (n + d.exponent) := by
    rw [zpow_add₀ (by norm_num), zpow_natCast]
  have hupper : |d.toRat| < 10 ^ (d.adjusted + 1) := by
    have hcast : (d.coefficient : ℚ) < 10 ^ d.digitCount := by exact_mod_cast d.coefficient_lt
    calc
      |d.toRat| = d.coefficient * 10 ^ d.exponent := abs_toRat d
      _ < 10 ^ d.digitCount * 10 ^ d.exponent := mul_lt_mul_of_pos_right hcast (zpow_ten_pos _)
      _ = 10 ^ (d.adjusted + 1) := by
        rw [hnatural, adjusted]
        congr 1
        omega
  have hlower : 10 ^ d.adjusted ≤ |d.toRat| := by
    have hcast : (10 : ℚ) ^ (d.digitCount - 1) ≤ d.coefficient := by exact_mod_cast le_coefficient hc
    calc
      (10 : ℚ) ^ d.adjusted = 10 ^ (d.digitCount - 1) * 10 ^ d.exponent := by
        rw [hnatural, adjusted]
        congr 1
        omega
      _ ≤ d.coefficient * 10 ^ d.exponent := mul_le_mul_of_nonneg_right hcast (zpow_ten_pos _).le
      _ = |d.toRat| := (abs_toRat d).symm
  constructor
  · intro h
    have hlt := (zpow_lt_zpow_iff_right₀ hten).mp (h.trans_lt hupper)
    omega
  · intro h
    exact ((zpow_le_zpow_iff_right₀ hten).mpr h).trans hlower

/-- Units of a larger power of ten are counted by the nearest integer. -/
theorem nearestEven_unitsOf (d : Decimal) (power : Int) :
    NearestEven (d.coefficient / 10 ^ (power - d.exponent).toNat) (d.unitsOf power) := by
  have hpow (n : Nat) : (0 : ℚ) < 10 ^ n := pow_pos (by norm_num) n
  unfold unitsOf
  simp only
  split
  · next hfew =>
      have hcast : (d.coefficient : ℚ) < 10 ^ d.digitCount := by exact_mod_cast d.coefficient_lt
      have hgap : (10 : ℚ) ^ d.digitCount * 10 ≤ 10 ^ (power - d.exponent).toNat := by
        rw [← pow_succ]
        exact pow_le_pow_right₀ (by norm_num) hfew
      have hsmall : (d.coefficient : ℚ) / 10 ^ (power - d.exponent).toNat < 1 / 2 := by
        rw [div_lt_iff₀ (hpow _)]
        linarith [hpow d.digitCount]
      have hdistance : |(d.coefficient : ℚ) / 10 ^ (power - d.exponent).toNat - (0 : Int)| =
          d.coefficient / 10 ^ (power - d.exponent).toNat := by
        rw [Int.cast_zero, sub_zero, abs_of_nonneg (by positivity)]
      refine .of_half ?_ ?_
      · rw [Nat.cast_zero, hdistance]
        exact hsmall.le
      · intro htie
        rw [Nat.cast_zero, hdistance] at htie
        exact absurd htie hsmall.ne
  · have hnearest := nearestEven_divideToEven d.coefficient (Nat.pow_pos (by decide : 0 < 10) :
      0 < Nat.pow 10 (power - d.exponent).toNat)
    rw [Nat.cast_pow, Nat.cast_ofNat] at hnearest
    exact hnearest

/-- A number is counted in units of a larger power of ten with its sign. -/
theorem nearestEven_signed {power : Int} (h : d.exponent ≤ power) :
    NearestEven (d.toRat / 10 ^ power)
      (signed { d with coefficient := d.unitsOf power, exponent := power }) := by
  have hpow : (10 : ℚ) ^ power = 10 ^ (power - d.exponent).toNat * 10 ^ d.exponent := by
    rw [← zpow_natCast, ← zpow_add₀ (by norm_num), Int.toNat_of_nonneg (by omega), sub_add_cancel]
  have hunits : d.toRat / 10 ^ power = d.signed / 10 ^ (power - d.exponent).toNat := by
    rw [toRat, hpow, mul_div_mul_right _ _ (zpow_ten_pos d.exponent).ne']
  have hnearest := nearestEven_unitsOf d power
  rw [hunits]
  cases hn : d.negative with
  | false => simpa [signed, hn] using hnearest
  | true => simpa [signed, hn, neg_div] using hnearest.neg

theorem unitsOf_le {power : Int} (h : d.exponent < power) : d.unitsOf power ≤ d.coefficient := by
  have hten : 2 ≤ Nat.pow 10 (power - d.exponent).toNat := by
    calc
      2 ≤ 10 ^ 1 := by decide
      _ ≤ 10 ^ (power - d.exponent).toNat := Nat.pow_le_pow_right (by decide) (by omega)
  unfold unitsOf
  simp only
  split
  · exact Nat.zero_le _
  · exact divideToEven_le _ hten

theorem digitCount_mono {m n : Nat} (h : m ≤ n) : Numeral.digitCount m ≤ Numeral.digitCount n := by
  have hpos := Numeral.digitCount_pos n
  refine (Numeral.digitCount_le_iff hpos).mpr ?_
  exact Nat.lt_of_le_of_lt h ((Numeral.digitCount_le_iff hpos).mp (Nat.le_refl _))

/-- What arithmetic gives that works with `precision` digits and whose exact result is `exact`, at the
exponent `scale` and with a minus sign as `minus` says. -/
inductive Gives (precision : Nat) (exact : ℚ) (scale : Int) (minus : Prop) : Except Limit Decimal → Prop
  /-- The precision cannot be worked with. -/
  | refused (hp : maxPrecision < precision) : Gives precision exact scale minus (.error .precision)
  /-- The exact result is too large. -/
  | overflow (hp : precision ≤ maxPrecision) (hlarge : 10 ^ (largestPower + 1) ≤ |exact|) :
      Gives precision exact scale minus (.error .overflow)
  /-- The exact result is within the limits. -/
  | exactly {d : Decimal} (hp : precision ≤ maxPrecision) (hlarge : |exact| < 10 ^ (largestPower + 1))
      (hlow : smallestPower precision ≤ scale) (hhigh : scale ≤ largestPower) (hd : d.toRat = exact)
      (he : d.exponent = scale) (hn : d.negative = true ↔ minus) : Gives precision exact scale minus (.ok d)
  /-- The exact result is at too small a power of ten, and is rounded at the smallest one. -/
  | underflow {d : Decimal} (hp : precision ≤ maxPrecision) (hlarge : |exact| < 10 ^ (largestPower + 1))
      (hlow : scale < smallestPower precision) (he : d.exponent = smallestPower precision)
      (hd : NearestEven (exact / 10 ^ smallestPower precision) d.signed)
      (hn : d.negative = true ↔ minus) : Gives precision exact scale minus (.ok d)
  /-- A zero is at too large a power of ten, and is given the largest one. -/
  | lowered {d : Decimal} (hp : precision ≤ maxPrecision) (hzero : exact = 0) (hhigh : largestPower < scale)
      (he : d.exponent = largestPower) (hd : d.coefficient = 0) (hn : d.negative = true ↔ minus) :
      Gives precision exact scale minus (.ok d)

theorem smallestPower_le (precision : Nat) (hp : 0 < precision) : smallestPower precision ≤ largestPower := by
  unfold smallestPower largestPower
  omega

theorem exponent_le_adjusted (d : Decimal) : d.exponent ≤ d.adjusted := by
  have hpos : 0 < d.digitCount := Numeral.digitCount_pos _
  unfold adjusted
  omega

theorem fit_zero (hc : d.coefficient = 0) :
    d.fit precision =
      .ok { d with exponent := min (max d.exponent (smallestPower precision)) largestPower } :=
  if_pos hc

/-- With room for all digits, a number other than zero is changed only below the smallest power of ten. -/
theorem fit_of_ne_zero (hc : d.coefficient ≠ 0) (hd : d.digitCount ≤ precision) :
    d.fit precision =
      if largestPower < d.adjusted then .error .overflow
      else if smallestPower precision ≤ d.exponent then .ok d
      else .ok { d with
        coefficient := d.unitsOf (smallestPower precision), exponent := smallestPower precision } := by
  have hpower : d.adjusted - precision + 1 ≤ d.exponent := by
    unfold adjusted
    omega
  have hpos : 0 < precision := Nat.lt_of_lt_of_le (Numeral.digitCount_pos _) hd
  rw [fit, if_neg hc]
  split
  · rfl
  by_cases hlow : smallestPower precision ≤ d.exponent
  · rw [if_pos (max_le hpower hlow), if_pos hlow]
  -- Below the smallest power of ten the units have no more digits than before, so none is carried.
  · have hmax : max (d.adjusted - precision + 1) (smallestPower precision) = smallestPower precision :=
      max_eq_right (by omega)
    have hunits : Numeral.digitCount (d.unitsOf (smallestPower precision)) ≤ precision :=
      (digitCount_mono (unitsOf_le (by omega))).trans hd
    have hrounded : d.roundedAt precision (smallestPower precision) =
        { d with coefficient := d.unitsOf (smallestPower precision), exponent := smallestPower precision } :=
      if_pos hunits
    have hadjusted : ¬largestPower < (d.roundedAt precision (smallestPower precision)).adjusted := by
      rw [hrounded]
      change ¬largestPower < (Numeral.digitCount (d.unitsOf (smallestPower precision)) : Int) - 1
        + smallestPower precision
      generalize Numeral.digitCount (d.unitsOf (smallestPower precision)) = count at hunits
      unfold smallestPower largestPower
      omega
    rw [hmax, if_neg hlow, if_neg hadjusted, if_neg hlow, hrounded]

theorem gives_fit_zero (hp : precision ≤ maxPrecision) (hpos : 0 < precision) (hc : d.coefficient = 0) :
    Gives precision d.toRat d.exponent (d.negative = true) (d.fit precision) := by
  have hzero : d.toRat = 0 := toRat_eq_zero_iff.mpr hc
  have hbound : |d.toRat| < 10 ^ (largestPower + 1) := by
    rw [hzero, abs_zero]
    exact zpow_ten_pos _
  have hrange := smallestPower_le precision hpos
  rw [fit_zero hc]
  rcases lt_or_ge d.exponent (smallestPower precision) with hlow | hlow
  · refine .underflow hp hbound hlow ?_ ?_ Iff.rfl
    · rw [max_eq_right hlow.le, min_eq_left hrange]
    · have hsigned (exponent : Int) : signed { d with exponent } = 0 := signed_eq_zero_iff.mpr hc
      rw [hsigned, hzero, zero_div]
      refine .of_half ?_ ?_ <;> norm_num
  · rw [max_eq_left hlow]
    rcases lt_or_ge largestPower d.exponent with hhigh | hhigh
    · exact .lowered hp hzero hhigh (min_eq_right hhigh.le) hc Iff.rfl
    · rw [min_eq_left hhigh]
      exact .exactly hp hbound hlow hhigh rfl rfl Iff.rfl

/-- What has room for all its digits is fitted as arithmetic does it. -/
theorem gives_fit (hp : precision ≤ maxPrecision) (hd : d.digitCount ≤ precision) :
    Gives precision d.toRat d.exponent (d.negative = true) (d.fit precision) := by
  by_cases hc : d.coefficient = 0
  · exact gives_fit_zero hp (Nat.lt_of_lt_of_le (Numeral.digitCount_pos _) hd) hc
  rw [fit_of_ne_zero hc hd]
  split
  · next hlarge => exact .overflow hp ((zpow_le_abs_toRat_iff hc).mpr hlarge)
  next hlarge =>
  have hbound : |d.toRat| < 10 ^ (largestPower + 1) := by
    rw [← not_le, zpow_le_abs_toRat_iff hc]
    omega
  split
  · next hlow =>
      have hhigh := d.exponent_le_adjusted
      exact .exactly hp hbound hlow (by omega) rfl rfl Iff.rfl
  · next hlow =>
      rw [not_le] at hlow
      exact .underflow hp hbound hlow rfl (nearestEven_signed hlow.le) Iff.rfl

/-- The working precision is checked before anything is computed. -/
theorem gives_bounded {first : Decimal} {others : List Decimal}
    (hd : d.digitCount ≤ workingPrecision first others) :
    Gives (workingPrecision first others) d.toRat d.exponent (d.negative = true)
      (boundedPrecision first others >>= d.fit) := by
  unfold boundedPrecision
  split
  · next hp => exact gives_fit hp hd
  · next hp => exact .refused (not_le.mp hp)

end Decimal

end ProtoScript
