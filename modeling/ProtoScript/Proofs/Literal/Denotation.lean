import Mathlib.Data.Nat.Digits.Defs
import ProtoScript.Proofs.Decimal.Rational
import ProtoScript.Proofs.Literal.Spelling
import ProtoScript.Proofs.Token.Boundaries
import ProtoScript.Proofs.Tree.Exchange
import ProtoScript.Proofs.Tree.RoundTrip

/-!
# What numbers denote

A number is written with a sign, digits, perhaps digits behind a point, and perhaps a power of ten. It
denotes what these parts say. An integer with a power of ten is the product of both, if that is whole. A
decimal keeps its sign, also in front of a zero, and all its digits. Powers of ten are bounded: for an
integer the one that is written, for a decimal the one of its last digit. A number out of these bounds, or
not whole, is blamed by the parser, with its place among the tokens.
-/

namespace ProtoScript.Literal
open ProtoScript.Token

/-- The number that digits spell in base ten. -/
def spelled (digits : List Char) : Nat :=
  Nat.ofDigits 10 (digits.reverse.map fun c => c.toNat - '0'.toNat)

/-- The factor that a sign stands for. -/
def unit (negative : Bool) : Int :=
  if negative then -1 else 1

/-- The parts that a number is written with. -/
structure Parts where
  negative : Bool
  whole : List Char
  /-- The digits behind the point. -/
  fraction : List Char
  /-- The power of ten, if one is written. -/
  power : Option Int
  deriving DecidableEq, Repr

/-- The decimal with the sign and the digits of a number, whose last digit has the power of ten that is
left behind the point. -/
def Parts.decimal (parts : Parts) : Decimal where
  negative := parts.negative
  coefficient := spelled (parts.whole ++ parts.fraction)
  exponent := parts.power.getD 0 - parts.fraction.length

/-- The ways to write a sign. -/
inductive WrittenSign : List Char → Bool → Prop
  | absent : WrittenSign [] false
  | plus : WrittenSign ['+'] false
  | minus : WrittenSign ['-'] true

/-- The ways to write a power of ten. -/
inductive WrittenPower : List Char → Option Int → Prop
  | absent : WrittenPower [] none
  | present {mark : Char} {sign digits : List Char} {negative : Bool} (hm : mark = 'e' ∨ mark = 'E')
      (hs : WrittenSign sign negative) (hd : Digits digits) :
      WrittenPower (mark :: (sign ++ digits)) (some (unit negative * spelled digits))

/-- The token is a number that is written with the parts. -/
inductive WrittenAs : Token → Parts → Prop
  | integer {sign whole power : List Char} {negative : Bool} {exponent : Option Int}
      (hs : WrittenSign sign negative) (hw : Digits whole) (hp : WrittenPower power exponent) :
      WrittenAs ⟨.integer, String.ofList (sign ++ (whole ++ power))⟩ ⟨negative, whole, [], exponent⟩
  | decimal {sign whole fraction power : List Char} {negative : Bool} {exponent : Option Int}
      (hs : WrittenSign sign negative) (hw : Digits whole) (hf : Digits fraction)
      (hp : WrittenPower power exponent) :
      WrittenAs ⟨.decimal, String.ofList (sign ++ (whole ++ ('.' :: fraction ++ power)))⟩
        ⟨negative, whole, fraction, exponent⟩

/-- What a number of the class and with the parts is worth, or what is wrong with it. -/
inductive Worth (parts : Parts) : Kind → Except Misfit Literal → Prop
  | integer (hp : parts.power = none) (hl : parts.whole.length ≤ 4300) :
      Worth parts .integer (.ok (.int (unit parts.negative * spelled parts.whole)))
  | scaled {e n : Int} (hp : parts.power = some e) (he : e.natAbs ≤ 100000)
      (hn : (n : ℚ) = unit parts.negative * spelled parts.whole * 10 ^ e) :
      Worth parts .integer (.ok (.int n))
  | fractional {e : Int} (hp : parts.power = some e) (he : e.natAbs ≤ 100000)
      (hn : ∀ n : Int, (n : ℚ) ≠ unit parts.negative * spelled parts.whole * 10 ^ e) :
      Worth parts .integer (.error .fractional)
  | integerRange {e : Int} (hp : parts.power = some e) (he : 100000 < e.natAbs) :
      Worth parts .integer (.error .exponentRange)
  | decimal (he : parts.decimal.exponent.natAbs ≤ 100000) :
      Worth parts .decimal (.ok (.decimal parts.decimal))
  | decimalRange (he : 100000 < parts.decimal.exponent.natAbs) :
      Worth parts .decimal (.error .exponentRange)

/-- The parser takes the number for the value. Or it takes no value for the number and, wherever a number
can stand, blames this one with its place among the tokens. -/
def ReadAs (token : Token) : Except Misfit Literal → Prop
  | .ok value =>
      (∀ after, Parser.acceptLiteral (token :: after) = .ok (some value, after)) ∧
        Parser.parse .expression [token] = .ok (.expr (.literal value))
  | .error cause =>
      (∀ after, Parser.acceptLiteral (token :: after) = .error (.misfit cause (token :: after))) ∧
        ∀ rule before after, Grammar.TakesNumber rule before →
          Parser.parse rule (before ++ token :: after) =
            .error (.error { cause, token := some token, index := before.length })

section Parts
variable {sign whole power : List Char} {negative : Bool} {exponent : Option Int} {token : Token}
  {parts : Parts}

theorem value_eq_spelled (digits : List Char) : Numeral.value digits = spelled digits := by
  induction digits with
  | nil => rfl
  | cons c digits ih =>
      rw [Numeral.value_cons, ih, spelled, spelled, List.reverse_cons, List.map_append,
        Nat.ofDigits_append, List.length_map, List.length_reverse, List.map_singleton,
        Nat.ofDigits_singleton]
      ring

theorem signedValue_eq (negative : Bool) (digits : List Char) :
    signedValue negative digits = unit negative * spelled digits := by
  unfold signedValue unit
  rw [value_eq_spelled]
  split <;> simp

theorem WrittenSign.grammar (h : WrittenSign sign negative) : Sign sign ∧ isMinus sign = negative := by
  cases h with
  | absent => exact ⟨.absent, rfl⟩
  | plus | minus => exact ⟨.present rfl, rfl⟩

theorem exists_writtenSign (h : Sign sign) : ∃ negative, WrittenSign sign negative := by
  cases h with
  | absent => exact ⟨_, .absent⟩
  | present h =>
      simp only [isSign, Bool.or_eq_true, decide_eq_true_eq] at h
      rcases h with rfl | rfl
      · exact ⟨_, .plus⟩
      · exact ⟨_, .minus⟩

theorem isExponentMark_iff {mark : Char} : isExponentMark mark = true ↔ mark = 'e' ∨ mark = 'E' := by
  simp [isExponentMark]

theorem WrittenPower.grammar (h : WrittenPower power exponent) :
    Exponent exponent.isSome power ∧ readExponent power = some (exponent.getD 0) := by
  cases h with
  | absent => exact ⟨.absent, rfl⟩
  | present hm hs hd =>
      obtain ⟨hsign, hminus⟩ := hs.grammar
      have hmark := isExponentMark_iff.mpr hm
      refine ⟨.present hmark hsign hd, ?_⟩
      rw [readExponent_present hmark hsign hd, signedValue_eq, hminus]
      rfl

theorem exists_writtenPower {present : Bool} (h : Exponent present power) :
    ∃ exponent, WrittenPower power exponent := by
  cases h with
  | absent => exact ⟨_, .absent⟩
  | present hm hs hd =>
      obtain ⟨negative, hsign⟩ := exists_writtenSign hs
      exact ⟨_, .present (isExponentMark_iff.mp hm) hsign hd⟩

theorem WrittenAs.wellSpelled (h : WrittenAs token parts) : token.WellSpelled := by
  unfold WellSpelled
  cases h with
  | integer hs hw hp =>
      rw [String.toList_ofList]
      exact .integer (.parts hs.grammar.1 hw .absent hp.grammar.1)
  | decimal hs hw hf hp =>
      rw [String.toList_ofList]
      exact .decimal (.parts hs.grammar.1 hw (.present hf) hp.grammar.1)

theorem WrittenAs.numeric (h : WrittenAs token parts) : Grammar.Numeric token where
  kind := by
    cases h with
    | integer => exact .inl rfl
    | decimal => exact .inr rfl
  shaped := h.wellSpelled.shaped

/-- Every number of the token grammar is written with some parts. -/
theorem exists_writtenAs (ht : token.WellSpelled)
    (hk : token.kind = .integer ∨ token.kind = .decimal) : ∃ parts, WrittenAs token parts := by
  obtain ⟨kind, literal⟩ := token
  have hl : Lexeme kind literal.toList := ht
  rw [← String.ofList_toList (s := literal)]
  generalize literal.toList = text at hl
  cases hl with
  | integer hnumber =>
      obtain ⟨hs, hw, hf, he⟩ := hnumber
      obtain ⟨negative, hsign⟩ := exists_writtenSign hs
      obtain ⟨exponent, hpower⟩ := exists_writtenPower he
      cases hf
      exact ⟨_, .integer hsign hw hpower⟩
  | decimal hnumber =>
      obtain ⟨hs, hw, hf, he⟩ := hnumber
      obtain ⟨negative, hsign⟩ := exists_writtenSign hs
      obtain ⟨exponent, hpower⟩ := exists_writtenPower he
      cases hf with
      | present hf => exact ⟨_, .decimal hsign hw hf hpower⟩
  | identifier | character | string | symbol | relation => rcases hk with hk | hk <;> cases hk

theorem WrittenAs.ofNumber_unscaled (h : WrittenAs token parts) (hk : token.kind = .integer)
    (hp : parts.power = none) (hl : parts.whole.length ≤ 4300) :
    ofNumber token = .ok (.int (unit parts.negative * spelled parts.whole)) := by
  cases h with
  | integer hs hw hpower =>
      cases hpower with
      | absent =>
          obtain ⟨hsign, hminus⟩ := hs.grammar
          rw [List.append_nil, ofNumber_integer hsign hw hl, signedValue_eq, hminus]
      | present => cases hp
  | decimal => cases hk

theorem WrittenAs.ofNumber_scaled (h : WrittenAs token parts)
    (hp : token.kind = .decimal ∨ parts.power.isSome = true) :
    ofNumber token = scaledValue token.kind parts.decimal := by
  cases h with
  | integer hs hw hpower =>
      obtain ⟨hsign, hminus⟩ := hs.grammar
      obtain ⟨hexponent, hread⟩ := hpower.grammar
      refine (Literal.ofNumber_scaled hsign hw .absent hexponent (.inr ?_) hread).trans ?_
      · exact hp.resolve_left nofun
      · rw [Spelling.decimal, value_eq_spelled, hminus]
        rfl
  | decimal hs hw hf hpower =>
      obtain ⟨hsign, hminus⟩ := hs.grammar
      obtain ⟨hexponent, hread⟩ := hpower.grammar
      refine (Literal.ofNumber_scaled hsign hw (.present hf) hexponent (.inl rfl) hread).trans ?_
      rw [Spelling.decimal, value_eq_spelled, hminus]
      rfl

end Parts

section Values
variable {d : Decimal} {n : Int}

/-- A decimal is whole if it stands for an integer. -/
theorem wholeValue?_eq_some_iff : wholeValue? d = some n ↔ (n : ℚ) = d.toRat := by
  have hrat : (n : ℚ) = d.toRat ↔ n * 10 ^ (-d.exponent).toNat = d.signed * 10 ^ d.exponent.toNat := by
    rw [Decimal.toRat, zpow_ten_eq, ← mul_div_assoc, eq_div_iff (by positivity)]
    exact_mod_cast Iff.rfl
  rw [hrat]
  unfold wholeValue?
  split
  case isTrue hexp =>
    have hzero : (-d.exponent).toNat = 0 := by omega
    rw [hzero, Option.some.injEq, Int.pow_eq, pow_zero, mul_one, eq_comm]
  case isFalse hexp =>
    have hzero : d.exponent.toNat = 0 := by omega
    have hdvd : d.coefficient % 10 ^ (-d.exponent).toNat = 0 ↔
        (10 ^ (-d.exponent).toNat : Int) ∣ d.signed := by
      rw [← Nat.dvd_iff_mod_eq_zero, ← Decimal.natAbs_signed, ← Int.natCast_dvd]
      norm_cast
    simp only [hzero, pow_zero, mul_one, Nat.pow_eq]
    split
    case isTrue hwhole =>
      have hne : (10 ^ (-d.exponent).toNat : Int) ≠ 0 := by positivity
      push_cast
      rw [Option.some.injEq, Int.ediv_eq_iff_eq_mul_left hne (hdvd.mp hwhole), eq_comm]
    case isFalse hwhole =>
      constructor
      · intro h
        cases h
      · intro h
        exact absurd (hdvd.mpr (Dvd.intro_left n h)) hwhole

theorem signed_eq (d : Decimal) : d.signed = unit d.negative * d.coefficient := by
  unfold Decimal.signed unit
  split <;> simp

/-- An integer with a power of ten stands for the product of both. -/
theorem WrittenAs.toRat_integer {token : Token} {parts : Parts} {e : Int} (h : WrittenAs token parts)
    (hk : token.kind = .integer) (hp : parts.power = some e) :
    parts.decimal.exponent = e ∧
      parts.decimal.toRat = unit parts.negative * spelled parts.whole * 10 ^ e := by
  cases h with
  | decimal => cases hk
  | integer hs hw hpower =>
      cases hp
      have hexponent : e - (([] : List Char).length : Int) = e := sub_zero e
      simp only [Parts.decimal, Decimal.toRat, signed_eq, Option.getD_some, hexponent, List.append_nil,
        Int.cast_mul, Int.cast_natCast]
      exact ⟨trivial, trivial⟩

section Bounds
variable (hheld : representable d = true)
include hheld

theorem scaledValue_of_large {kind : Kind} (h : 100000 < d.exponent.natAbs) :
    scaledValue kind d = .error .exponentRange := by
  simp [scaledValue, hheld, maxExponent, h]

variable (h : d.exponent.natAbs ≤ 100000)
include h

theorem scaledValue_decimal : scaledValue .decimal d = .ok (.decimal d) := by
  simp [scaledValue, hheld, maxExponent, Nat.not_lt.mpr h]

theorem scaledValue_integer :
    (∀ n : Int, (n : ℚ) = d.toRat → scaledValue .integer d = .ok (.int n)) ∧
      ((∀ n : Int, (n : ℚ) ≠ d.toRat) → scaledValue .integer d = .error .fractional) := by
  constructor
  · intro n hn
    simp [scaledValue, hheld, maxExponent, Nat.not_lt.mpr h, wholeValue?_eq_some_iff.mpr hn]
  · intro hn
    have hnone : wholeValue? d = none :=
      Option.eq_none_iff_forall_ne_some.mpr fun n hwhole => hn n (wholeValue?_eq_some_iff.mp hwhole)
    simp [scaledValue, hheld, maxExponent, Nat.not_lt.mpr h, hnone]

end Bounds

end Values

section Reading
variable {token : Token} (hn : Grammar.Numeric token)
include hn

theorem readAs_ok {value : Literal} (h : ofNumber token = .ok value) : ReadAs token (.ok value) := by
  have hverdict : Grammar.Verdict.literal (some token) = .take (some value) := by
    rw [hn.verdict_literal, Grammar.Verdict.number, h]
  constructor
  · intro after
    rw [Grammar.acceptLiteral_eq]
    exact Grammar.decideBy_take hverdict
  · exact Grammar.parse_of_denotes hn.shaped (.number hn.kind h)

theorem readAs_error {cause : Misfit} (h : Grammar.Verdict.number token = .misfit cause) :
    ReadAs token (.error cause) := by
  constructor
  · intro after
    rw [Grammar.acceptLiteral_eq]
    exact Grammar.decideBy_misfit (hn.verdict_literal.trans h)
  · intro rule before after htakes
    exact Grammar.parse_blames_number htakes hn h after

end Reading

/-- A number is read as what it is worth, if a decimal can hold it. -/
theorem Worth.readAs {token : Token} {parts : Parts} {result : Except Misfit Literal}
    (hworth : Worth parts token.kind result) (h : WrittenAs token parts)
    (hheld : representable parts.decimal = true) : ReadAs token result := by
  generalize hk : token.kind = kind at hworth
  cases hworth with
  | integer hp hl => exact readAs_ok h.numeric (h.ofNumber_unscaled hk hp hl)
  | scaled hp he hn =>
      obtain ⟨hexponent, hrat⟩ := h.toRat_integer hk hp
      have hvalue := (scaledValue_integer hheld (hexponent ▸ he)).1 _ (hn.trans hrat.symm)
      rw [← hk, ← h.ofNumber_scaled (.inr (hp ▸ rfl))] at hvalue
      exact readAs_ok h.numeric hvalue
  | fractional hp he hn =>
      obtain ⟨hexponent, hrat⟩ := h.toRat_integer hk hp
      have hvalue := (scaledValue_integer hheld (hexponent ▸ he)).2 (hrat ▸ hn)
      rw [← hk, ← h.ofNumber_scaled (.inr (hp ▸ rfl))] at hvalue
      exact readAs_error h.numeric (by rw [Grammar.Verdict.number, hvalue])
  | integerRange hp he =>
      obtain ⟨hexponent, -⟩ := h.toRat_integer hk hp
      have hvalue := h.ofNumber_scaled (.inr (hp ▸ rfl))
      rw [scaledValue_of_large hheld (hexponent ▸ he)] at hvalue
      exact readAs_error h.numeric (by rw [Grammar.Verdict.number, hvalue])
  | decimal he =>
      have hvalue := h.ofNumber_scaled (.inl hk)
      rw [hk, scaledValue_decimal hheld he] at hvalue
      exact readAs_ok h.numeric hvalue
  | decimalRange he =>
      have hvalue := h.ofNumber_scaled (.inl hk)
      rw [scaledValue_of_large hheld he] at hvalue
      exact readAs_error h.numeric (by rw [Grammar.Verdict.number, hvalue])

/-- Only an integer of too many digits and without a power of ten has no worth. -/
theorem exists_worth {token : Token} {parts : Parts} (h : WrittenAs token parts) :
    (token.kind = .integer ∧ parts.power = none ∧ 4300 < parts.whole.length) ∨
      ∃ result, Worth parts token.kind result := by
  rcases h.numeric.kind with hk | hk <;> rw [hk]
  · cases hp : parts.power with
    | none =>
        rcases Nat.lt_or_ge 4300 parts.whole.length with hl | hl
        · exact .inl ⟨rfl, rfl, hl⟩
        · exact .inr ⟨_, .integer hp hl⟩
    | some e =>
        refine .inr ?_
        rcases Nat.lt_or_ge 100000 e.natAbs with he | he
        · exact ⟨_, .integerRange hp he⟩
        by_cases hn : ∃ n : Int, (n : ℚ) = unit parts.negative * spelled parts.whole * 10 ^ e
        · obtain ⟨n, hn⟩ := hn
          exact ⟨_, .scaled hp he hn⟩
        · exact ⟨_, .fractional hp he (not_exists.mp hn)⟩
  · refine .inr ?_
    rcases Nat.lt_or_ge 100000 parts.decimal.exponent.natAbs with he | he
    · exact ⟨_, .decimalRange he⟩
    · exact ⟨_, .decimal he⟩

/-- Numbers denote exactly what they spell. The numbers of the token grammar are those that are written with
a sign, digits, perhaps a fraction and perhaps a power of ten. Every one of them that a decimal can hold has
a worth, an integer of more than 4300 digits without a power of ten apart, and the parser takes it for that:
for its exact value, or for a number to blame with its place among the tokens. -/
theorem numbers_denote_what_they_spell :
    (∀ token : Token, token.WellSpelled ∧ (token.kind = .integer ∨ token.kind = .decimal) ↔
      ∃ parts, WrittenAs token parts) ∧
    ∀ token parts, WrittenAs token parts → representable parts.decimal = true →
      ((token.kind = .integer ∧ parts.power = none ∧ 4300 < parts.whole.length) ∨
        ∃ result, Worth parts token.kind result) ∧
      ∀ result, Worth parts token.kind result → ReadAs token result := by
  constructor
  · intro token
    constructor
    · rintro ⟨ht, hk⟩
      exact exists_writtenAs ht hk
    · rintro ⟨parts, h⟩
      exact ⟨h.wellSpelled, h.numeric.kind⟩
  · intro token parts h hheld
    exact ⟨exists_worth h, fun result hworth => hworth.readAs h hheld⟩

/-- An integer whose power of ten cancels its zeros, a negative zero that keeps its digits, and an integer
that is not whole, inside a call. -/
theorem numbers_denote_what_they_spell_powers :
    let whole : Token := ⟨.integer, "-1000e-3"⟩
    let zero : Token := ⟨.decimal, "-0.00"⟩
    let broken : Token := ⟨.integer, "15E-1"⟩
    ReadAs whole (.ok (.int (-1))) ∧ ReadAs zero (.ok (.decimal ⟨true, 0, -2⟩)) ∧
      Parser.parse .source ((lex "LET x = f(").tokens ++ [broken]) =
        .error (.error { cause := .fractional, token := some broken, index := 5 }) := by
  intro whole zero broken
  have hthousand : Digits ['1', '0', '0', '0'] := ⟨by simp, List.all_eq_true.mp rfl⟩
  have hnoughts : Digits ['0', '0'] := ⟨by simp, List.all_eq_true.mp rfl⟩
  have hfifteen : Digits ['1', '5'] := ⟨by simp, List.all_eq_true.mp rfl⟩
  have hwhole : WrittenAs whole ⟨true, ['1', '0', '0', '0'], [], some (-3)⟩ :=
    .integer .minus hthousand (.present (.inl rfl) .minus (.single (rfl : isDigit '3' = true)))
  have hzero : WrittenAs zero ⟨true, ['0'], ['0', '0'], none⟩ :=
    .decimal .minus (.single (rfl : isDigit '0' = true)) hnoughts .absent
  have hbroken : WrittenAs broken ⟨false, ['1', '5'], [], some (-1)⟩ :=
    .integer .absent hfifteen (.present (.inr rfl) .minus (.single (rfl : isDigit '1' = true)))
  have htakes : Grammar.TakesNumber .source (lex "LET x = f(").tokens :=
    ⟨⟨.integer, "1"⟩, [Grammar.mark ")", Grammar.mark ";"], _, ⟨.inl rfl, rfl⟩, rfl⟩
  refine ⟨?_, ?_, ?_⟩
  · refine (numbers_denote_what_they_spell.2 whole _ hwhole (by decide)).2 _ (.scaled rfl (by decide) ?_)
    have hspelled : spelled ['1', '0', '0', '0'] = 1000 := by decide
    norm_num [unit, hspelled]
  · exact (numbers_denote_what_they_spell.2 zero _ hzero (by decide)).2 _ (.decimal (by decide))
  · have hfractional (n : Int) : (n : ℚ) ≠ unit false * spelled ['1', '5'] * 10 ^ (-1 : Int) := by
      have hspelled : spelled ['1', '5'] = 15 := by decide
      intro hn
      have htwice : ((2 * n : Int) : ℚ) = (3 : Int) := by
        norm_num [hn, unit, hspelled]
      have hodd : 2 * n = 3 := Int.cast_injective htwice
      omega
    have hread := (numbers_denote_what_they_spell.2 broken _ hbroken (by decide)).2 _
      (.fractional rfl (by decide) hfractional)
    exact hread.2 .source _ [] htakes

end ProtoScript.Literal
