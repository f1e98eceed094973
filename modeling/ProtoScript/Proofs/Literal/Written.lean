import ProtoScript.Proofs.Literal.Spelling
import ProtoScript.Proofs.Tree.Grammar

/-!
# Writing literals

Every value that a literal can have is written by one token, and that token denotes the value. An
integer with more digits than plain integers may have is written with an exponent of zero. A decimal
keeps its last digit behind the point, so that its exponent can be written for every scale.
-/

namespace ProtoScript.Literal
open ProtoScript.Token

/-- What stands for a character between quotes. -/
def escape : Char → List Char
  | '\x08' => ['\\', 'b']
  | '\n' => ['\\', 'n']
  | '\r' => ['\\', 'r']
  | '\t' => ['\\', 't']
  | '\'' => ['\\', '\'']
  | '"' => ['\\', '"']
  | '\\' => ['\\', '\\']
  | c => [c]

/-- A text between quotes. -/
def quoted (quote : Char) (text : String) : String :=
  String.ofList (quote :: (text.toList.flatMap escape ++ [quote]))

/-- A sign for negative numbers. -/
def signOf (negative : Bool) : List Char :=
  if negative then ['-'] else []

/-- A decimal with one digit behind the point and an exponent. -/
def writeDecimal (d : Decimal) : String :=
  String.ofList (signOf d.negative ++ (Numeral.digits (d.coefficient / 10) ++
    ('.' :: Numeral.digits (d.coefficient % 10) ++
      'e' :: (signOf (d.exponent + 1 < 0) ++ Numeral.digits (d.exponent + 1).natAbs))))

/-- An integer, with an exponent if it has too many digits to be read without one. -/
def writeInt (n : Int) : String :=
  if Numeral.writable n then Numeral.ofInt n else Numeral.ofInt n ++ "e0"

/-- The token that a value is written as. -/
def token : Literal → Token
  | .nil => Grammar.word "NIL"
  | .bool true => Grammar.word "TRUE"
  | .bool false => Grammar.word "FALSE"
  | .int n => ⟨.integer, writeInt n⟩
  | .decimal d => ⟨.decimal, writeDecimal d⟩
  | .character text => ⟨.character, quoted '\'' text⟩
  | .string text => ⟨.string, quoted '"' text⟩

/-- The values that literals can have: numbers that decimals can hold, with a bounded exponent, single
characters, and all strings. -/
def expressible : Literal → Bool
  | .nil | .bool _ | .string _ => true
  | .int n => representable ⟨n < 0, n.natAbs, 0⟩
  | .decimal d => representable d && d.exponent.natAbs ≤ maxExponent
  | .character text => text.length = 1

section Numbers

theorem sign_signOf (negative : Bool) : Sign (signOf negative) := by
  cases negative with
  | false => exact .absent
  | true => exact .present rfl

@[simp] theorem isMinus_signOf (negative : Bool) : isMinus (signOf negative) = negative := by
  cases negative <;> rfl

theorem digits_digits (n : Nat) : Digits (Numeral.digits n) :=
  ⟨(Numeral.digits_spec n).1, (Numeral.digits_spec n).2.1⟩

theorem signedValue_digits (n : Int) :
    signedValue (n < 0) (Numeral.digits n.natAbs) = n := by
  simp only [signedValue, Numeral.value_digits, decide_eq_true_eq]
  split <;> omega

theorem exponent_written (k : Int) :
    Exponent true ('e' :: (signOf (k < 0) ++ Numeral.digits k.natAbs)) :=
  .present rfl (sign_signOf _) (digits_digits _)

theorem number_writeDecimal (d : Decimal) : Number true true (writeDecimal d).toList := by
  rw [writeDecimal, String.toList_ofList]
  exact .parts (sign_signOf _) (digits_digits _) (.present (digits_digits _)) (exponent_written _)

/-- The digit behind the point and the exponent make up for each other. -/
theorem decimal_written (d : Decimal) :
    Spelling.decimal ⟨d.negative, Numeral.digits (d.coefficient / 10),
      Numeral.digits (d.coefficient % 10), d.exponent + 1⟩ = d := by
  have hone : (Numeral.digits (d.coefficient % 10)).length = 1 := by
    have hle : Numeral.digitCount (d.coefficient % 10) ≤ 1 :=
      (Numeral.digitCount_le_iff (by decide)).mpr (Nat.mod_lt _ (by decide))
    exact Nat.le_antisymm hle (Numeral.digitCount_pos _)
  have hvalue : Numeral.value (Numeral.digits (d.coefficient / 10) ++
      Numeral.digits (d.coefficient % 10)) = d.coefficient := by
    rw [Numeral.value_append, hone, Numeral.value_digits, Numeral.value_digits]
    omega
  simp only [Spelling.decimal, hvalue, hone]
  simp

/-- A decimal is read as it was written. -/
theorem ofNumber_writeDecimal {d : Decimal} (h : expressible (.decimal d) = true) :
    ofNumber ⟨.decimal, writeDecimal d⟩ = .ok (.decimal d) := by
  have hread : readExponent ('e' :: (signOf (d.exponent + 1 < 0) ++
      Numeral.digits (d.exponent + 1).natAbs)) = some (d.exponent + 1) := by
    rw [readExponent_present rfl (sign_signOf _) (digits_digits _), isMinus_signOf, signedValue_digits]
  simp only [expressible, Bool.and_eq_true, decide_eq_true_eq] at h
  rw [writeDecimal, ofNumber_scaled (sign_signOf _) (digits_digits _) (.present (digits_digits _))
    (exponent_written _) (.inl rfl) hread, isMinus_signOf, List.drop_succ_cons, List.drop_zero,
    decimal_written, scaledValue, h.1]
  simp [Nat.not_lt.mpr h.2]

theorem ofInt_eq (n : Int) :
    Numeral.ofInt n = String.ofList (signOf (n < 0) ++ Numeral.digits n.natAbs) := by
  by_cases hn : n < 0 <;> simp [Numeral.ofInt, Numeral.ofNat, signOf, hn]

theorem writeInt_eq (n : Int) :
    writeInt n = String.ofList (signOf (n < 0) ++ (Numeral.digits n.natAbs ++
      ([] ++ if Numeral.writable n then [] else 'e' :: ([] ++ ['0'])))) := by
  unfold writeInt
  split <;> simp [ofInt_eq, String.append_assoc]

theorem number_writeInt (n : Int) : ∃ exponent, Number false exponent (writeInt n).toList := by
  rw [writeInt_eq, String.toList_ofList]
  split
  · exact ⟨false, .parts (sign_signOf _) (digits_digits _) .absent .absent⟩
  · exact ⟨true, .parts (sign_signOf _) (digits_digits _) .absent (.present rfl .absent (.single rfl))⟩

theorem signed_ofInt (n : Int) : Decimal.signed ⟨n < 0, n.natAbs, 0⟩ = n := by
  simp only [Decimal.signed, decide_eq_true_eq]
  split <;> omega

/-- An integer is read as it was written. -/
theorem ofNumber_writeInt {n : Int} (h : expressible (.int n) = true) :
    ofNumber ⟨.integer, writeInt n⟩ = .ok (.int n) := by
  rw [writeInt_eq]
  split
  case isTrue hw =>
    have hl : (Numeral.digits n.natAbs).length ≤ Numeral.maxDigits :=
      (Numeral.writable_iff n).mp hw
    rw [List.append_nil, List.append_nil, ofNumber_integer (sign_signOf _) (digits_digits _) hl,
      isMinus_signOf, signedValue_digits]
  case isFalse hw =>
    have hread : readExponent ('e' :: ([] ++ ['0'])) = some 0 := rfl
    have hd : Spelling.decimal ⟨n < 0, Numeral.digits n.natAbs, [], 0⟩ = ⟨n < 0, n.natAbs, 0⟩ := by
      simp [Spelling.decimal]
    rw [ofNumber_scaled (sign_signOf _) (digits_digits _) .absent
      (.present rfl .absent (.single rfl)) (.inr rfl) hread, isMinus_signOf, List.drop_nil, hd, scaledValue]
    have hr : representable ⟨n < 0, n.natAbs, 0⟩ = true := h
    have hwhole : wholeValue? ⟨n < 0, n.natAbs, 0⟩ = some n := by
      rw [wholeValue?, if_pos (Int.le_refl 0), signed_ofInt]
      exact congrArg some (Int.mul_one n)
    simp [hr, hwhole]

end Numbers

section Quoted

/-- The pieces of a written text spell the text. -/
theorem decodeEscapes_escape_append (c : Char) (rest : List Char) :
    decodeEscapes (escape c ++ rest) = c :: decodeEscapes rest := by
  unfold escape
  split
  iterate 7 exact decodeEscapes_escape rfl
  · rename_i hback
    exact decodeEscapes_plain hback

theorem decodeEscapes_written (text : List Char) : decodeEscapes (text.flatMap escape) = text := by
  induction text with
  | nil => rfl
  | cons c text ih => rw [List.flatMap_cons, decodeEscapes_escape_append, ih]

theorem piece_escape {quote : Char} (hq : quote = '\'' ∨ quote = '"') (c : Char) :
    Piece quote (escape c) := by
  unfold escape
  split
  iterate 7 exact .escape rfl
  · rename_i hline hreturn _ hsingle hdouble hback
    apply Piece.plain
    rcases hq with rfl | rfl <;> simp_all [isPlain]

theorem pieces_written (text : List Char) : Pieces '"' (text.flatMap escape) := by
  induction text with
  | nil => exact .none
  | cons c text ih => exact .more (piece_escape (.inr rfl) c) ih

theorem decode_written (quote : Char) (text : String) : decode (quoted quote text) = text := by
  rw [quoted, decode_quoted, decodeEscapes_written, String.ofList_toList]

end Quoted

/-- The token of a value is well spelled. -/
theorem wellSpelled_token {value : Literal} (h : value.expressible = true) :
    value.token.WellSpelled := by
  unfold WellSpelled
  cases value with
  | nil => exact .identifier rfl (List.all_eq_true.mp rfl)
  | bool value => cases value <;> exact .identifier rfl (List.all_eq_true.mp rfl)
  | int n =>
      obtain ⟨exponent, hn⟩ := number_writeInt n
      simp only [token]
      exact .integer hn
  | decimal d => exact .decimal (number_writeDecimal d)
  | character text =>
      obtain ⟨c, hc⟩ : ∃ c, text.toList = [c] := by
        rw [← List.length_eq_one_iff, String.length_toList]
        simpa [expressible] using h
      simpa [token, quoted, hc] using Lexeme.character (piece_escape (.inl rfl) c)
  | string text => simpa [token, quoted] using Lexeme.string (pieces_written text.toList)

/-- The token of a value denotes it. -/
theorem denotes_token {value : Literal} (h : value.expressible = true) :
    Grammar.Denotes value.token value := by
  cases value with
  | nil => exact .nil
  | bool value =>
      cases value with
      | false => exact .false
      | true => exact .true
  | int n => exact .number (.inl rfl) (ofNumber_writeInt h)
  | decimal d => exact .number (.inr rfl) (ofNumber_writeDecimal h)
  | character text =>
      have hd := Grammar.Denotes.character (quoted '\'' text)
      rwa [decode_written] at hd
  | string text =>
      have hd := Grammar.Denotes.string (quoted '"' text)
      rwa [decode_written] at hd

section Image

theorem expressible_int_iff (n : Int) :
    expressible (.int n) = true ↔ (Numeral.digitCount n.natAbs : Int) - 1 ≤ Decimal.largestPower := by
  have hsmallest : Decimal.smallestPower Decimal.maxPrecision ≤ 0 := by decide
  simp [expressible, representable, Decimal.adjusted, Decimal.digitCount, hsmallest]

theorem natAbs_signed (d : Decimal) : d.signed.natAbs = d.coefficient := by
  unfold Decimal.signed
  split <;> simp

theorem natAbs_signedValue (negative : Bool) (digits : List Char) :
    (signedValue negative digits).natAbs = Numeral.value digits := by
  unfold signedValue
  split <;> simp

theorem natAbs_pow_ten (k : Nat) : (Int.pow 10 k).natAbs = 10 ^ k :=
  Int.natAbs_pow 10 k

/-- A whole decimal has no more digits than its first one stands for, but one at least. -/
theorem digitCount_wholeValue {d : Decimal} {n : Int} (h : wholeValue? d = some n) :
    (Numeral.digitCount n.natAbs : Int) - 1 ≤ max 0 d.adjusted := by
  rw [Decimal.adjusted, Decimal.digitCount]
  unfold wholeValue? at h
  split at h
  case isTrue hexp =>
    cases h
    have hle := Numeral.digitCount_mul_pow_le d.coefficient d.exponent.toNat
    rw [Int.natAbs_mul, natAbs_signed, natAbs_pow_ten]
    omega
  case isFalse hexp =>
    simp only [Nat.pow_eq] at h
    split at h
    case isTrue hwhole =>
      cases h
      have hle := Numeral.digitCount_div_pow_le d.coefficient (-d.exponent).toNat
      have hdvd : (((10 ^ (-d.exponent).toNat : Nat) : Int)) ∣ d.signed := by
        rw [Int.ofNat_dvd_left, natAbs_signed]
        exact Nat.dvd_of_mod_eq_zero hwhole
      rw [Int.natAbs_ediv_of_dvd hdvd, natAbs_signed, Int.natAbs_natCast]
      omega
    case isFalse => cases h

theorem expressible_of_scaledValue {kind : Kind} {d : Decimal} {value : Literal}
    (h : scaledValue kind d = .ok value) : value.expressible = true := by
  unfold scaledValue at h
  split at h
  · cases h
  split at h
  · cases h
  rename_i hheld hbound
  split at h
  · cases h
    simp_all [expressible]
  split at h
  case _ n hwhole =>
    cases h
    have hcount := digitCount_wholeValue hwhole
    have hadjusted : d.adjusted ≤ Decimal.largestPower := by simp_all [representable]
    rw [expressible_int_iff]
    unfold Decimal.largestPower at hadjusted ⊢
    omega
  case _ => cases h

theorem expressible_of_integerValue {text : String} {value : Literal}
    (h : integerValue text = .ok value) : value.expressible = true := by
  unfold integerValue at h
  generalize splitSign ((text.toList.map Text.plainDigit).dropWhile isMargin) = parts at h
  obtain ⟨negative, unsigned⟩ := parts
  generalize hdigits : (unsigned.takeWhile isIntegerPart).filter isDigit = digits at h
  have hall : ∀ c ∈ digits, isDigit c = true := by
    subst hdigits
    exact fun c hc => (List.mem_filter.mp hc).2
  simp only [hdigits] at h
  split at h
  · cases h
  split at h
  · cases h
  rename_i hfew
  split at h
  · cases h
    have hcount : Numeral.digitCount (Numeral.value digits) ≤ Numeral.maxDigits := by
      refine (Numeral.digitCount_le_iff (by decide)).mpr ?_
      calc
        Numeral.value digits < 10 ^ digits.length := Numeral.value_lt hall
        _ ≤ 10 ^ Numeral.maxDigits := Nat.pow_le_pow_right (by decide) (Nat.not_lt.mp hfew)
    rw [expressible_int_iff, natAbs_signedValue]
    unfold Numeral.maxDigits at hcount
    unfold Decimal.largestPower
    omega
  · cases h

/-- A token can only have a value that can be written. -/
theorem expressible_of_ofNumber {token : Token} {value : Literal} (h : ofNumber token = .ok value) :
    value.expressible = true := by
  unfold ofNumber at h
  split at h
  · exact expressible_of_integerValue h
  split at h
  · exact expressible_of_scaledValue h
  · cases h

theorem expressible_of_denotes {token : Token} {value : Literal} (ht : token.WellSpelled)
    (h : Grammar.Denotes token value) : value.expressible = true := by
  cases h with
  | nil | true | false | string => rfl
  | number _ hv => exact expressible_of_ofNumber hv
  | character text =>
      have hl : Lexeme .character text.toList := ht
      generalize hs : text.toList = chars at hl
      cases hl with
      | @character body hp =>
          obtain ⟨c, hc⟩ := decodeEscapes_piece hp []
          rw [List.append_nil] at hc
          rw [expressible, ← String.ofList_toList (s := text), hs, decode_quoted, hc,
            String.length_ofList]
          rfl

end Image

end ProtoScript.Literal
