import Mathlib.Algebra.Group.Nat.Defs
import ProtoScript.Numeral
import ProtoScript.Token.Basic

/-!
# Numerals are read as they are written

The digits that are written for a number spell that number, and they are as few as possible. The proof
follows the halving of the digits: a block of digits spells the number up to a power of ten.
-/

namespace ProtoScript.Numeral

/-- The digits are the ten characters that numbers below ten are written with. -/
theorem isDigit_iff (c : Char) : Token.isDigit c = true ↔ ∃ k, k < 10 ∧ c = Nat.digitChar k := by
  constructor
  · intro h
    have hrange : 48 ≤ c.toNat ∧ c.toNat ≤ 57 := by
      simpa [Token.isDigit, Char.le_def, UInt32.le_iff_toNat_le] using h
    have hall : ∀ n < 58, 48 ≤ n → Char.ofNat n = Nat.digitChar (n - 48) := by decide
    refine ⟨c.toNat - 48, by omega, ?_⟩
    rw [← hall c.toNat (by omega) hrange.1, Char.ofNat_toNat]
  · rintro ⟨k, hk, rfl⟩
    revert k
    decide

/-- What holds of the ten digits holds of every digit. -/
theorem forall_isDigit {P : Char → Prop} (h : ∀ k, k < 10 → P (Nat.digitChar k)) {c : Char}
    (hc : Token.isDigit c = true) : P c := by
  obtain ⟨k, hk, rfl⟩ := (isDigit_iff c).mp hc
  exact h k hk

theorem value_cons (c : Char) (digits : List Char) :
    value (c :: digits) = (c.toNat - '0'.toNat) * 10 ^ digits.length + value digits := by
  have hfold (n : Nat) : digits.foldl (fun n c => 10 * n + (c.toNat - '0'.toNat)) n =
      n * 10 ^ digits.length + value digits := by
    induction digits generalizing n with
    | nil => simp [value]
    | cons d digits ih =>
        simp only [value, List.foldl_cons, List.length_cons]
        rw [ih, ih (10 * 0 + _), Nat.pow_succ]
        grind
  simpa [value] using hfold (c.toNat - '0'.toNat)

theorem value_append (front back : List Char) :
    value (front ++ back) = value front * 10 ^ back.length + value back := by
  induction front with
  | nil => simp [value]
  | cons c front ih =>
      rw [List.cons_append, value_cons, value_cons, ih, List.length_append, Nat.pow_add]
      grind

theorem digitChar_spec {k : Nat} (h : k < 10) :
    Token.isDigit (Nat.digitChar k) = true ∧ (Nat.digitChar k).toNat - '0'.toNat = k := by
  revert k
  decide

/-- Digits spell less than the power of ten with as many zeros. -/
theorem value_lt {digits : List Char} (h : ∀ c ∈ digits, Token.isDigit c = true) :
    value digits < 10 ^ digits.length := by
  induction digits with
  | nil => simp [value]
  | cons c digits ih =>
      obtain ⟨hc, hrest⟩ := List.forall_mem_cons.mp h
      obtain ⟨k, hk, rfl⟩ := (isDigit_iff c).mp hc
      have hlt := ih hrest
      rw [value_cons, (digitChar_spec hk).2, List.length_cons]
      calc
        k * 10 ^ digits.length + value digits < (k + 1) * 10 ^ digits.length := by grind
        _ ≤ 10 * 10 ^ digits.length := Nat.mul_le_mul_right _ hk
        _ = 10 ^ (digits.length + 1) := by rw [Nat.pow_succ, Nat.mul_comm]

/-- A block holds the last digits of a number, in front of the tail. -/
theorem digitBlock_eq (level n : Nat) (tail : List Char) :
    ∃ block, digitBlock level n tail = block ++ tail ∧ block.length = 2 ^ level ∧
      (∀ c ∈ block, Token.isDigit c = true) ∧ value block = n % 10 ^ 2 ^ level := by
  induction level generalizing n tail with
  | zero =>
      have hlt : n % 10 < 10 := Nat.mod_lt n (by decide)
      obtain ⟨hdigit, hvalue⟩ := digitChar_spec hlt
      refine ⟨[Nat.digitChar (n % 10)], rfl, rfl, by simpa using hdigit, ?_⟩
      rw [value_cons, hvalue]
      simp [value]
  | succ level ih =>
      obtain ⟨low, hlow, hlength, hdigits, hvalue⟩ := ih (n % 10 ^ 2 ^ level) tail
      obtain ⟨high, hhigh, hlength', hdigits', hvalue'⟩ := ih (n / 10 ^ 2 ^ level) (low ++ tail)
      refine ⟨high ++ low, ?_, ?_, ?_, ?_⟩
      · rw [List.append_assoc, ← hhigh, ← hlow]
        rfl
      · rw [List.length_append, hlength, hlength', Nat.pow_succ]
        omega
      · exact List.forall_mem_append.mpr ⟨hdigits', hdigits⟩
      · have hdouble : 10 ^ 2 ^ (level + 1) = 10 ^ 2 ^ level * 10 ^ 2 ^ level := by
          rw [← Nat.pow_add, Nat.pow_succ, Nat.mul_two]
        rw [value_append, hvalue, hvalue', hlength, Nat.mod_mod, hdouble, Nat.mod_mul]
        grind

/-- A block of the chosen level holds all digits of a number. -/
theorem lt_pow_blockLevel (n : Nat) : n < 10 ^ 2 ^ blockLevel n := by
  have hlevel : n.log2 / 3 + 1 < 2 ^ blockLevel n := Nat.lt_log2_self
  have hbits : n < 2 ^ (n.log2 + 1) := Nat.lt_log2_self
  calc
    n < 2 ^ (n.log2 + 1) := hbits
    _ ≤ 2 ^ (3 * 2 ^ blockLevel n) := Nat.pow_le_pow_right (by decide) (by omega)
    _ = 8 ^ 2 ^ blockLevel n := Nat.pow_mul 2 3 _
    _ ≤ 10 ^ 2 ^ blockLevel n := Nat.pow_le_pow_left (by decide) _

/-- Leading zeros do not count, and the last one stays. -/
theorem dropLeadingZeros_eq {digits : List Char} (h : ∀ c ∈ digits, Token.isDigit c = true) :
    dropLeadingZeros digits ≠ [] ∧ (∀ c ∈ dropLeadingZeros digits, Token.isDigit c = true) ∧
      value (dropLeadingZeros digits) = value digits ∧
      (value digits ≠ 0 → (dropLeadingZeros digits).head? ≠ some '0') := by
  unfold dropLeadingZeros
  induction digits with
  | nil => exact ⟨by simp, List.all_eq_true.mp rfl, rfl, fun h => absurd rfl h⟩
  | cons c digits ih =>
      obtain ⟨hc, hrest⟩ := List.forall_mem_cons.mp h
      by_cases hzero : c = '0'
      · subst hzero
        have hvalue : value ('0' :: digits) = value digits := by simp [value_cons]
        rw [hvalue]
        simpa using ih hrest
      · simpa [hzero, hc] using hrest

/-- The digits of a number spell it. -/
theorem digits_spec (n : Nat) :
    digits n ≠ [] ∧ (∀ c ∈ digits n, Token.isDigit c = true) ∧ value (digits n) = n := by
  obtain ⟨block, hblock, -, hdigits, hvalue⟩ := digitBlock_eq (blockLevel n) n []
  rw [List.append_nil] at hblock
  obtain ⟨hne, hall, hkept, -⟩ := dropLeadingZeros_eq hdigits
  rw [digits, hblock]
  refine ⟨hne, hall, ?_⟩
  rw [hkept, hvalue, Nat.mod_eq_of_lt (lt_pow_blockLevel n)]

@[simp] theorem value_digits (n : Nat) : value (digits n) = n :=
  (digits_spec n).2.2

/-- A number other than zero is not written with a zero in front. -/
theorem head?_digits {n : Nat} (hn : n ≠ 0) : (digits n).head? ≠ some '0' := by
  obtain ⟨block, hblock, -, hdigits, hvalue⟩ := digitBlock_eq (blockLevel n) n []
  rw [List.append_nil] at hblock
  rw [digits, hblock]
  refine (dropLeadingZeros_eq hdigits).2.2.2 ?_
  rwa [hvalue, Nat.mod_eq_of_lt (lt_pow_blockLevel n)]

/-- A number has at most `k` digits if it is less than the power of ten with `k` zeros. -/
theorem digitCount_le_iff {n k : Nat} (hk : 0 < k) : digitCount n ≤ k ↔ n < 10 ^ k := by
  obtain ⟨hne, hall, hvalue⟩ := digits_spec n
  constructor
  · intro h
    calc
      n = value (digits n) := hvalue.symm
      _ < 10 ^ (digits n).length := value_lt hall
      _ ≤ 10 ^ k := Nat.pow_le_pow_right (by decide) h
  · intro h
    by_cases hn : n = 0
    · subst hn
      exact hk
    · have hhead := head?_digits hn
      obtain ⟨c, rest, hdigits⟩ := List.exists_cons_of_ne_nil hne
      rw [hdigits] at hall hvalue hhead
      obtain ⟨d, hd, rfl⟩ := (isDigit_iff c).mp (hall c List.mem_cons_self)
      have hpos : 1 ≤ d := by
        refine Nat.pos_of_ne_zero ?_
        rintro rfl
        exact hhead rfl
      have hlow : 10 ^ rest.length ≤ n := by
        rw [← hvalue, value_cons, (digitChar_spec hd).2]
        calc
          10 ^ rest.length ≤ d * 10 ^ rest.length := Nat.le_mul_of_pos_left _ hpos
          _ ≤ d * 10 ^ rest.length + value rest := Nat.le_add_right _ _
      have hlt : rest.length < k :=
        (Nat.pow_lt_pow_iff_right (by decide)).mp (Nat.lt_of_le_of_lt hlow h)
      rw [digitCount, hdigits]
      exact hlt

theorem digitCount_pos (n : Nat) : 0 < digitCount n :=
  List.length_pos_iff.mpr (digits_spec n).1

/-- A power of ten adds at most as many digits as it has zeros. -/
theorem digitCount_mul_pow_le (n k : Nat) : digitCount (n * 10 ^ k) ≤ digitCount n + k := by
  have hpos := digitCount_pos n
  have hlt : n < 10 ^ digitCount n := (digitCount_le_iff hpos).mp (Nat.le_refl _)
  rw [digitCount_le_iff (by omega), Nat.pow_add]
  exact Nat.mul_lt_mul_of_pos_right hlt (Nat.pow_pos (by decide))

/-- A power of ten takes as many digits away as it has zeros, but one digit stays. -/
theorem digitCount_div_pow_le (n k : Nat) : digitCount (n / 10 ^ k) ≤ max 1 (digitCount n - k) := by
  have hlt : n < 10 ^ digitCount n := (digitCount_le_iff (digitCount_pos n)).mp (Nat.le_refl _)
  rw [digitCount_le_iff (by omega), Nat.div_lt_iff_lt_mul (Nat.pow_pos (by decide)), ← Nat.pow_add]
  exact Nat.lt_of_lt_of_le hlt (Nat.pow_le_pow_right (by decide) (by omega))

theorem writable_iff (n : Int) : writable n = true ↔ digitCount n.natAbs ≤ maxDigits := by
  have hpos : 0 < maxDigits := by decide
  rw [writable, decide_eq_true_eq, Nat.pow_eq, digitCount_le_iff hpos]

end ProtoScript.Numeral
