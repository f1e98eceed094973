import ProtoScript.Literal.Escape
import ProtoScript.Literal.Number
import ProtoScript.Proofs.Token.Spacing

/-!
# What a spelled literal denotes

The parts of a number that the token grammar describes are the parts that its value is read from, and
the pieces of a quoted literal are the pieces that decoding replaces.
-/

namespace ProtoScript.Literal
open ProtoScript.Token

/-- Reading a number leaves such a character as it is. -/
def Verbatim (c : Char) : Prop :=
  Text.plainDigit c = c ∧ Text.isBlank c = false ∧ c ≠ '_'

instance (c : Char) : Decidable (Verbatim c) :=
  inferInstanceAs (Decidable (_ ∧ _ ∧ _))

theorem dropWhile_eq_self {inClass : Char → Bool} {text : List Char}
    (h : ∀ c ∈ text, inClass c = false) : text.dropWhile inClass = text := by
  cases text with
  | nil => rfl
  | cons c text => simp [h c List.mem_cons_self]

section Verbatim
variable {text : List Char} (h : ∀ c ∈ text, Verbatim c)
include h

theorem map_plainDigit : text.map Text.plainDigit = text := by
  calc
    text.map Text.plainDigit = text.map id := List.map_congr_left fun c hc => (h c hc).1
    _ = text := List.map_id text

theorem condensed_eq : condensed (String.ofList text) = text := by
  have hblank : ∀ c ∈ text, Text.isBlank c = false := fun c hc => (h c hc).2.1
  have hend : Text.dropBlankEnd text = text := by
    rw [Text.dropBlankEnd, dropWhile_eq_self fun c hc => hblank c (List.mem_reverse.mp hc),
      List.reverse_reverse]
  have hscore : text.filter (· ≠ '_') = text :=
    List.filter_eq_self.mpr fun c hc => decide_eq_true (h c hc).2.2
  rw [condensed, Text.trim, String.toList_ofList, String.toList_ofList, dropWhile_eq_self hblank, hend,
    hscore, map_plainDigit h]

end Verbatim

section Numbers
variable {sign whole behind power rest : List Char} {fraction exponent : Bool}

/-- Whether a sign is a minus. -/
def isMinus (sign : List Char) : Bool :=
  sign = ['-']

theorem splitSign_append (hs : Sign sign) (hw : Digits whole) (rest : List Char) :
    splitSign (sign ++ (whole ++ rest)) = (isMinus sign, whole ++ rest) := by
  cases hs with
  | absent =>
      obtain ⟨d, whole, rfl⟩ := List.exists_cons_of_ne_nil hw.nonempty
      have hd : isSign d = false := not_isSign_of_isDigit (hw.all d List.mem_cons_self)
      simp only [isSign, Bool.or_eq_false_iff, decide_eq_false_iff_not] at hd
      simp only [List.nil_append, List.cons_append]
      unfold splitSign
      split <;> simp_all [isMinus]
  | @present c h =>
      simp only [isSign, Bool.or_eq_true, decide_eq_true_eq] at h
      rcases h with rfl | rfl <;> rfl

/-- A run of a class ends where the text does not go on with it. -/
theorem takeWhile_run {inClass : Char → Bool} {run : List Char} (hw : ∀ c ∈ run, inClass c = true)
    (hr : startsIn [inClass] rest = false) :
    (run ++ rest).takeWhile inClass = run ∧ (run ++ rest).dropWhile inClass = rest := by
  constructor
  · rw [List.takeWhile_append_of_pos hw, Scan.takeWhile_eq_nil hr, List.append_nil]
  · rw [List.dropWhile_append_of_pos hw]
    cases rest with
    | nil => rfl
    | cons c rest =>
        have hc : inClass c = false := by simpa [startsIn] using hr
        simp [hc]

/-- What follows the digits of a number starts with no digit and no point. -/
theorem Exponent.not_startsIn (he : Exponent exponent power) :
    startsIn [isDigit] power = false ∧ startsIn [only '.'] power = false := by
  cases he with
  | absent => exact ⟨rfl, rfl⟩
  | present hm =>
      obtain ⟨hdigit, hpoint⟩ := not_isDigit_of_isExponentMark hm
      simp [startsIn, only, hdigit, hpoint]

theorem splitFraction_append (hf : Fraction fraction behind) (he : Exponent exponent power) :
    splitFraction (behind ++ power) = (behind.drop 1, power) := by
  obtain ⟨hdigit, hpoint⟩ := Exponent.not_startsIn he
  cases hf with
  | absent =>
      rw [List.nil_append, splitFraction.eq_def]
      split
      · simp [startsIn, only] at hpoint
      · rfl
  | @present digits h =>
      obtain ⟨htake, hdrop⟩ := takeWhile_run h.all hdigit
      simp [splitFraction, htake, hdrop]

theorem readExponent_present {mark : Char} {digits : List Char} (hm : isExponentMark mark = true)
    (hs : Sign sign) (hd : Digits digits) :
    readExponent (mark :: (sign ++ digits)) = some (signedValue (isMinus sign) digits) := by
  have hsplit := splitSign_append hs hd []
  rw [List.append_nil] at hsplit
  have hempty : digits.isEmpty = false := by simpa using hd.nonempty
  have hall : digits.all isDigit = true := List.all_eq_true.mpr hd.all
  simp [readExponent, hsplit, hm, hempty, hall]

/-- The parts of a number are told apart as the grammar joins them. -/
theorem ofText?_parts (hs : Sign sign) (hw : Digits whole) (hf : Fraction fraction behind)
    (he : Exponent exponent power) :
    Spelling.ofText? (sign ++ (whole ++ (behind ++ power))) =
      (readExponent power).map fun k => ⟨isMinus sign, whole, behind.drop 1, k⟩ := by
  have hnext : startsIn [isDigit] (behind ++ power) = false := by
    cases hf with
    | absent => exact (Exponent.not_startsIn he).1
    | present => rfl
  obtain ⟨htake, hdrop⟩ := takeWhile_run hw.all hnext
  have hempty : whole.isEmpty = false := by simpa using hw.nonempty
  simp [Spelling.ofText?, splitSign_append hs hw, htake, hdrop, splitFraction_append hf he, hempty]

/-- A number with a fraction or an exponent has the value of its parts. -/
theorem ofNumber_scaled {kind : Kind} {k : Int} (hs : Sign sign) (hw : Digits whole)
    (hf : Fraction fraction behind) (he : Exponent exponent power)
    (hk : kind = .decimal ∨ exponent = true) (hp : readExponent power = some k) :
    ofNumber ⟨kind, String.ofList (sign ++ (whole ++ (behind ++ power)))⟩ =
      scaledValue kind (Spelling.decimal ⟨isMinus sign, whole, behind.drop 1, k⟩) := by
  have hmarked : (kind = .integer && !hasExponentMark
      (String.ofList (sign ++ (whole ++ (behind ++ power))))) = false := by
    rcases hk with rfl | rfl
    · rfl
    · cases he with
      | present hm => simp [hasExponentMark, hm]
  have hcondensed : condensed (String.ofList (sign ++ (whole ++ (behind ++ power)))) = _ :=
    condensed_eq ((Number.parts hs hw hf he).forall_mem (by decide) (by decide))
  simp only [ofNumber, if_neg (Bool.eq_false_iff.mp hmarked), hcondensed, ofText?_parts hs hw hf he, hp,
    Option.map_some]

theorem wellSpaced_digits {digits : List Char} (h : ∀ c ∈ digits, isDigit c = true)
    (behindDigit : Bool) (hne : digits ≠ [] ∨ behindDigit = true) :
    wellSpaced behindDigit digits = true := by
  induction digits generalizing behindDigit with
  | nil => exact hne.resolve_left fun h => h rfl
  | cons c digits ih =>
      obtain ⟨hc, hrest⟩ := List.forall_mem_cons.mp h
      have hscore : c ≠ '_' := by
        rintro rfl
        cases hc
      rw [wellSpaced, if_neg hscore]
      exact ih hrest true (.inr rfl)

theorem hasExponentMark_integer (hs : Sign sign) (hw : Digits whole) :
    hasExponentMark (String.ofList (sign ++ whole)) = false := by
  rw [hasExponentMark, String.toList_ofList, List.any_append, Bool.or_eq_false_iff]
  constructor
  · cases hs with
    | absent => rfl
    | @present c h =>
        simp only [isSign, Bool.or_eq_true, decide_eq_true_eq] at h
        rcases h with rfl | rfl <;> rfl
  · refine List.any_eq_false.mpr fun c hc => ?_
    exact Numeral.forall_isDigit (P := fun c => ¬isExponentMark c = true) (by decide) (hw.all c hc)

/-- An integer without an exponent has the value of its digits, unless they are too many. -/
theorem ofNumber_unscaled (hs : Sign sign) (hw : Digits whole) :
    ofNumber ⟨.integer, String.ofList (sign ++ whole)⟩ =
      if Numeral.maxDigits < whole.length then .error (.unusable (.tooManyDigits whole.length))
      else .ok (.int (signedValue (isMinus sign) whole)) := by
  have hnumber : Number false false (sign ++ whole) := by
    simpa using Number.parts hs hw .absent .absent
  have hverbatim : ∀ c ∈ sign ++ whole, Verbatim c := hnumber.forall_mem (by decide) (by decide)
  have hmargin : (sign ++ whole).dropWhile isMargin = sign ++ whole :=
    dropWhile_eq_self fun c hc => by rw [isMargin, (hverbatim c hc).2.1, Bool.false_and]
  have hsplit := splitSign_append hs hw []
  have hpart : ∀ c ∈ whole, isIntegerPart c = true := fun c hc => by
    rw [isIntegerPart, hw.all c hc, Bool.true_or]
  obtain ⟨htake, hdrop⟩ := takeWhile_run hpart (show startsIn [isIntegerPart] [] = false from rfl)
  have hfilter : whole.filter isDigit = whole := List.filter_eq_self.mpr hw.all
  have hspaced : wellSpaced false whole = true := wellSpaced_digits hw.all false (.inl hw.nonempty)
  rw [List.append_nil] at hsplit htake hdrop
  have hvalue : ofNumber ⟨.integer, String.ofList (sign ++ whole)⟩ =
      integerValue (String.ofList (sign ++ whole)) := by
    simp only [ofNumber, hasExponentMark_integer hs hw]
    rfl
  rw [hvalue]
  simp only [integerValue, String.toList_ofList, map_plainDigit hverbatim, hmargin, hsplit, htake,
    hfilter, hspaced, hdrop, List.all_nil, Bool.not_true, if_true]
  rfl

theorem ofNumber_integer (hs : Sign sign) (hw : Digits whole)
    (hl : whole.length ≤ Numeral.maxDigits) :
    ofNumber ⟨.integer, String.ofList (sign ++ whole)⟩ =
      .ok (.int (signedValue (isMinus sign) whole)) := by
  rw [ofNumber_unscaled hs hw, if_neg (Nat.not_lt.mpr hl)]

theorem unrepresentable_of_scaledValue {kind : Kind} {d : Decimal} {reason : Unusable}
    (h : scaledValue kind d = .error (.unusable reason)) : reason = .unrepresentable := by
  unfold scaledValue at h
  split at h
  · cases h
    rfl
  split at h
  · cases h
  split at h
  · cases h
  split at h <;> cases h

/-- A number of the token grammar can be used unless it is too long to be read or too large to be held. -/
theorem unusable_of_wellSpelled {token : Token} (ht : token.WellSpelled)
    (hk : token.kind = .integer ∨ token.kind = .decimal) {reason : Unusable}
    (h : ofNumber token = .error (.unusable reason)) :
    (∃ count, Numeral.maxDigits < count ∧ reason = .tooManyDigits count) ∨ reason = .unrepresentable := by
  obtain ⟨kind, literal⟩ := token
  have hl : Lexeme kind literal.toList := ht
  rw [← String.ofList_toList (s := literal)] at h
  generalize literal.toList = text at hl h
  cases hl with
  | @integer exponent text hnumber =>
      obtain ⟨hs, hw, hf, he⟩ := hnumber
      cases hf
      cases he with
      | absent =>
          simp only [List.append_nil] at h
          rw [ofNumber_unscaled hs hw] at h
          split at h
          · next hlong =>
              cases h
              exact .inl ⟨_, hlong, rfl⟩
          · cases h
      | present hm hs' hd =>
          rw [ofNumber_scaled hs hw .absent (.present hm hs' hd) (.inr rfl)
            (readExponent_present hm hs' hd)] at h
          exact .inr (unrepresentable_of_scaledValue h)
  | @decimal exponent text hnumber =>
      obtain ⟨hs, hw, hf, he⟩ := hnumber
      refine .inr ?_
      cases he with
      | absent =>
          rw [ofNumber_scaled hs hw hf .absent (.inl rfl) rfl] at h
          exact unrepresentable_of_scaledValue h
      | present hm hs' hd =>
          rw [ofNumber_scaled hs hw hf (.present hm hs' hd) (.inl rfl)
            (readExponent_present hm hs' hd)] at h
          exact unrepresentable_of_scaledValue h
  | identifier | character | string | symbol | relation => rcases hk with hk | hk <;> cases hk

end Numbers

section Quoted
variable {c : Char} {rest : List Char}

theorem decodeEscapes_plain (hc : c ≠ '\\') : decodeEscapes (c :: rest) = c :: decodeEscapes rest := by
  cases rest with
  | nil => rfl
  | cons d rest => rw [decodeEscapes, if_neg hc]

theorem decodeEscapes_escape {e : Char} (h : escaped c = some e) :
    decodeEscapes ('\\' :: c :: rest) = e :: decodeEscapes rest := by
  rw [decodeEscapes, if_pos rfl, h]

/-- What the grammar lets stand behind a backslash has a meaning there. -/
theorem escaped_of_isEscapable (h : isEscapable c = true) : ∃ e, escaped c = some e := by
  simp only [isEscapable, Bool.or_eq_true, decide_eq_true_eq] at h
  rcases h with (((((rfl | rfl) | rfl) | rfl) | rfl) | rfl) | rfl <;> exact ⟨_, rfl⟩

/-- A piece stands for one character. -/
theorem decodeEscapes_piece {quote : Char} {piece : List Char} (h : Piece quote piece)
    (rest : List Char) : ∃ e, decodeEscapes (piece ++ rest) = e :: decodeEscapes rest := by
  cases h with
  | @plain c h =>
      have hc : c ≠ '\\' := by simpa [only] using not_isBackslash_of_isPlain h
      exact ⟨c, decodeEscapes_plain hc⟩
  | escape h =>
      obtain ⟨e, he⟩ := escaped_of_isEscapable h
      exact ⟨e, decodeEscapes_escape he⟩

theorem decode_quoted (quote : Char) (body : List Char) :
    decode (String.ofList (quote :: (body ++ [quote]))) = String.ofList (decodeEscapes body) := by
  simp [decode]

end Quoted

end ProtoScript.Literal
