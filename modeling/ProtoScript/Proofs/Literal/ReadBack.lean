import ProtoScript.Proofs.Literal.Denotation
import ProtoScript.Proofs.Literal.Written
import ProtoScript.Value.Display

/-!
# Displayed numbers read back as themselves

The text of a number is one token. The text of an integer denotes it. A decimal with digits behind the
point is shown with all of them, and with zeros in front where digits are missing; so its text denotes the
same sign, coefficient and exponent. A decimal without digits behind the point is shown as an integer, and
its text denotes the integer that it is equal to.
-/

namespace ProtoScript

namespace Numeral

theorem value_replicate_zero (count : Nat) : value (List.replicate count '0') = 0 := by
  induction count with
  | zero => rfl
  | succ count ih => rw [List.replicate_succ, value_cons, ih]; simp

theorem value_zeros_append (count : Nat) (digits : List Char) :
    value (List.replicate count '0' ++ digits) = value digits := by
  rw [value_append, value_replicate_zero, Nat.zero_mul, Nat.zero_add]

theorem value_append_zeros (digits : List Char) (count : Nat) :
    value (digits ++ List.replicate count '0') = value digits * 10 ^ count := by
  rw [value_append, value_replicate_zero, List.length_replicate, Nat.add_zero]

end Numeral

namespace Token

theorem Digits.append_zeros {digits : List Char} (h : Digits digits) (count : Nat) :
    Digits (digits ++ List.replicate count '0') where
  nonempty := List.append_ne_nil_of_left_ne_nil h.nonempty _
  all c hc := by
    rcases List.mem_append.mp hc with hc | hc
    · exact h.all c hc
    · rw [List.eq_of_mem_replicate hc]
      rfl

end Token

namespace Decimal
open ProtoScript.Token

/-- The point stands in front of as many digits as asked for and behind at least one, and the digits around
it spell the same number. -/
theorem exists_withPoint {digits : List Char} (hd : Digits digits) {places : Nat} (hp : 0 < places) :
    ∃ whole fraction, withPoint digits places = whole ++ '.' :: fraction ∧ Digits whole ∧
      Digits fraction ∧ fraction.length = places ∧
      Numeral.value (whole ++ fraction) = Numeral.value digits := by
  rw [withPoint, if_neg (Nat.ne_of_gt hp)]
  generalize hpadded : List.replicate (places + 1 - digits.length) '0' ++ digits = padded
  have hlength : places < padded.length := by
    rw [← hpadded, List.length_append, List.length_replicate]
    omega
  have hall : ∀ c ∈ padded, isDigit c = true := by
    rw [← hpadded]
    refine List.forall_mem_append.mpr ⟨fun c hc => ?_, hd.all⟩
    rw [List.eq_of_mem_replicate hc]
    rfl
  have hwhole : (padded.take (padded.length - places)).length = padded.length - places := by
    rw [List.length_take]
    omega
  have hfraction : (padded.drop (padded.length - places)).length = places := by
    rw [List.length_drop]
    omega
  refine ⟨_, _, rfl, ⟨?_, fun c hc => hall c (List.mem_of_mem_take hc)⟩,
    ⟨?_, fun c hc => hall c (List.mem_of_mem_drop hc)⟩, hfraction, ?_⟩
  · refine List.ne_nil_of_length_pos ?_
    omega
  · refine List.ne_nil_of_length_pos ?_
    omega
  · rw [List.take_append_drop, ← hpadded, Numeral.value_zeros_append]

/-- Without digits behind the point the digits that are shown spell the number, its sign apart. -/
theorem plainDigits_of_nonneg {d : Decimal} (he : 0 ≤ d.exponent) :
    Digits d.plainDigits ∧ Numeral.value d.plainDigits = d.coefficient * 10 ^ d.exponent.toNat := by
  have hdigits := Literal.digits_digits d.coefficient
  unfold plainDigits
  split
  · split
    · next hzero => exact ⟨hdigits, by rw [Numeral.value_digits, hzero, Nat.zero_mul]⟩
    · exact ⟨hdigits.append_zeros _, by rw [Numeral.value_append_zeros, Numeral.value_digits]⟩
  · next hpos =>
      have hzero : d.exponent = 0 := by omega
      simp only [hzero, withPoint]
      exact ⟨hdigits, by simp⟩

end Decimal

namespace Literal
open ProtoScript.Token

/-- The text is one token of the class, and the parser takes it for the value. -/
def ReadsBack (text : String) (kind : Token.Kind) (value : Literal) : Prop :=
  (lex text).error = none ∧ (lex text).tokens = [⟨kind, text⟩] ∧ ReadAs ⟨kind, text⟩ (.ok value)

theorem readsBack_of_ofNumber {text : String} {kind : Token.Kind} {value : Literal}
    (ht : Token.WellSpelled ⟨kind, text⟩) (hk : kind = .integer ∨ kind = .decimal)
    (h : ofNumber ⟨kind, text⟩ = .ok value) : ReadsBack text kind value := by
  obtain ⟨herror, htokens, -⟩ := lex_of_wellSpelled ht
  exact ⟨herror, htokens, readAs_ok ⟨hk, ht.shaped⟩ h⟩

section Texts
variable (negative : Bool) {whole fraction : List Char}

theorem readsBack_integer (hw : Digits whole) (hl : whole.length ≤ 4300) :
    ReadsBack (String.ofList (signOf negative ++ whole)) .integer (.int (signedValue negative whole)) := by
  have hnumber : Number false false (signOf negative ++ whole) := by
    simpa using Number.parts (sign_signOf negative) hw .absent .absent
  refine readsBack_of_ofNumber ?_ (.inl rfl) ?_
  · unfold WellSpelled
    rw [String.toList_ofList]
    exact .integer hnumber
  · rw [ofNumber_integer (sign_signOf negative) hw hl, isMinus_signOf]

theorem readsBack_decimal {d : Decimal} (hw : Digits whole) (hf : Digits fraction)
    (hd : d = Spelling.decimal ⟨negative, whole, fraction, 0⟩) (hheld : representable d = true)
    (he : d.exponent.natAbs ≤ 100000) :
    ReadsBack (String.ofList (signOf negative ++ (whole ++ '.' :: fraction))) .decimal (.decimal d) := by
  have hsign := sign_signOf negative
  have hnumber : Number true false (signOf negative ++ (whole ++ '.' :: fraction)) := by
    simpa using Number.parts hsign hw (.present hf) .absent
  refine readsBack_of_ofNumber ?_ (.inr rfl) ?_
  · unfold WellSpelled
    rw [String.toList_ofList]
    exact .decimal hnumber
  · have hvalue :
        ofNumber ⟨.decimal, String.ofList (signOf negative ++ (whole ++ ('.' :: fraction ++ [])))⟩ =
          scaledValue .decimal (Spelling.decimal ⟨isMinus (signOf negative), whole, fraction, 0⟩) :=
      ofNumber_scaled hsign hw (.present hf) .absent (.inl rfl) rfl
    rw [List.append_nil, isMinus_signOf, ← hd, scaledValue_decimal hheld he] at hvalue
    exact hvalue

end Texts

theorem readsBack_displayInt {n : Int} (hn : Numeral.digitCount n.natAbs ≤ 4300) :
    ∃ text, displayInt n = .ok text ∧ ReadsBack text .integer (.int n) := by
  refine ⟨Numeral.ofInt n, if_pos ((Numeral.writable_iff n).mpr hn), ?_⟩
  have hread := readsBack_integer (n < 0) (digits_digits n.natAbs) hn
  rwa [signedValue_digits, ← ofInt_eq] at hread

theorem readsBack_plain {d : Decimal} (hheld : representable d = true) (hlow : -100000 ≤ d.exponent)
    (hhigh : d.exponent ≤ -1) : ReadsBack d.plain .decimal (.decimal d) := by
  have hplaces : 0 < (-d.exponent).toNat := by omega
  obtain ⟨whole, fraction, htext, hw, hf, hlength, hvalue⟩ :=
    Decimal.exists_withPoint (digits_digits d.coefficient) hplaces
  have hplain : d.plain = String.ofList (signOf d.negative ++ (whole ++ '.' :: fraction)) := by
    rw [Decimal.plain, Decimal.plainDigits, if_neg (by omega), htext]
    rfl
  have hd : d = Spelling.decimal ⟨d.negative, whole, fraction, 0⟩ := by
    have hexponent : 0 - (fraction.length : Int) = d.exponent := by omega
    rw [Spelling.decimal, hvalue, Numeral.value_digits, hexponent]
  rw [hplain]
  exact readsBack_decimal d.negative hw hf hd hheld (by omega)

/-- A decimal without digits behind the point is read as the integer that it is equal to. -/
theorem readsBack_whole {d : Decimal} (he : 0 ≤ d.exponent) (hl : d.plainDigits.length ≤ 4300) :
    ∃ n : Int, (n : ℚ) = d.toRat ∧ ReadsBack d.plain .integer (.int n) := by
  obtain ⟨hdigits, hvalue⟩ := Decimal.plainDigits_of_nonneg he
  refine ⟨signedValue d.negative d.plainDigits, ?_, readsBack_integer d.negative hdigits hl⟩
  have hpow : (10 : ℚ) ^ d.exponent = 10 ^ d.exponent.toNat := by
    rw [← zpow_natCast, Int.toNat_of_nonneg he]
  rw [Decimal.toRat, hpow, signedValue, Decimal.signed, hvalue]
  split <;> push_cast <;> ring

/-- The text of a number is one token, and the parser takes it for the number. An integer of at most 4300
digits is read as itself. A decimal with 1 to 100000 digits behind the point is read with its sign, its
coefficient and its exponent, if decimals can hold it at all. A decimal without digits behind the point and
with at most 4300 digits in its text is read as the integer that it is equal to. -/
theorem displayed_numbers_read_back (h : Heap) :
    (∀ n : Int, Numeral.digitCount n.natAbs ≤ 4300 →
      ∃ text, display h (.int n) = .ok text ∧ ReadsBack text .integer (.int n)) ∧
    (∀ d : Decimal, representable d = true → -100000 ≤ d.exponent → d.exponent ≤ -1 →
      ∃ text, display h (.decimal d) = .ok text ∧ ReadsBack text .decimal (.decimal d)) ∧
    (∀ d : Decimal, 0 ≤ d.exponent → d.plainDigits.length ≤ 4300 →
      ∃ text, display h (.decimal d) = .ok text ∧
        ∃ n : Int, (n : ℚ) = d.toRat ∧ ReadsBack text .integer (.int n)) := by
  refine ⟨?_, ?_, ?_⟩
  · intro n hn
    obtain ⟨text, htext, hread⟩ := readsBack_displayInt hn
    have hdisplay : display h (.int n) = displayInt n := by rw [display, displayWith]
    exact ⟨text, hdisplay.trans htext, hread⟩
  · intro d hheld hlow hhigh
    exact ⟨d.plain, rfl, readsBack_plain hheld hlow hhigh⟩
  · intro d he hl
    exact ⟨d.plain, rfl, readsBack_whole he hl⟩

/-- A zero that keeps its sign and its digits, zeros on both sides of the point, and a decimal whose text is
that of an integer. -/
theorem displayed_numbers_read_back_zeros :
    let zero : Decimal := ⟨true, 0, -3⟩
    let small : Decimal := ⟨false, 70, -4⟩
    let large : Decimal := ⟨true, 15, 3⟩
    display {} (.decimal zero) = .ok "-0.000" ∧ ReadsBack "-0.000" .decimal (.decimal zero) ∧
      display {} (.decimal small) = .ok "0.0070" ∧ ReadsBack "0.0070" .decimal (.decimal small) ∧
      display {} (.decimal large) = .ok "-15000" ∧ ReadsBack "-15000" .integer (.int (-15000)) := by
  intro zero small large
  obtain ⟨-, hplaces, hwhole⟩ := displayed_numbers_read_back {}
  have hzero : display {} (.decimal zero) = .ok "-0.000" := congrArg Except.ok (by decide +kernel)
  have hsmall : display {} (.decimal small) = .ok "0.0070" := congrArg Except.ok (by decide +kernel)
  have hlarge : display {} (.decimal large) = .ok "-15000" := congrArg Except.ok (by decide +kernel)
  obtain ⟨text, htext, hreadZero⟩ := hplaces zero (by decide) (by decide) (by decide)
  obtain rfl := Except.ok.inj (hzero.symm.trans htext)
  obtain ⟨text, htext, hreadSmall⟩ := hplaces small (by decide) (by decide) (by decide)
  obtain rfl := Except.ok.inj (hsmall.symm.trans htext)
  obtain ⟨text, htext, n, hn, hreadLarge⟩ := hwhole large (by decide) (by decide)
  obtain rfl := Except.ok.inj (hlarge.symm.trans htext)
  have hvalue : n = -15000 := by
    have hrat : (n : ℚ) = (-15000 : Int) := by
      rw [hn]
      norm_num [Decimal.toRat, Decimal.signed, large]
    exact Int.cast_injective hrat
  exact ⟨hzero, hreadZero, hsmall, hreadSmall, hlarge, hvalue ▸ hreadLarge⟩

end Literal

end ProtoScript
