import ProtoScript.Decimal.Text
import ProtoScript.Proofs.Text.Filling
import ProtoScript.Proofs.Text.Messages
import ProtoScript.Text.Blank

/-!
# Alphabets

Terminals are controlled by sequences that start with the escape character. An alphabet has every character
but perhaps that one. What the interpreter adds to the texts of a program (numerals, quotation marks, words
of messages) is spelled in every alphabet, so a text is spelled in the alphabet of the parts that come from
the program.
-/

namespace ProtoScript

namespace Text

/-- The character that starts the control sequences of terminals. -/
def escapeChar : Char :=
  '\x1b'

/-- A set of characters that lacks no other than the escape character. -/
structure Alphabet where
  has : Char → Prop
  ordinary {c : Char} (h : c ≠ escapeChar) : has c

namespace Alphabet

/-- All characters. -/
def full : Alphabet where
  has _ := True
  ordinary _ := trivial

/-- All characters but the escape character. -/
def unescaped : Alphabet where
  has c := c ≠ escapeChar
  ordinary h := h

/-- Every character of the text is in the alphabet. -/
def Spells (A : Alphabet) (text : String) : Prop :=
  ∀ c ∈ text.toList, A.has c

variable {A : Alphabet} {a b : String}

theorem spells_ofList {chars : List Char} : A.Spells (String.ofList chars) ↔ ∀ c ∈ chars, A.has c := by
  rw [Spells, String.toList_ofList]

/-- The words of the interpreter itself are spelled in every alphabet. -/
theorem spells_word {chars : List Char} (h : escapeChar ∉ chars) : A.Spells (String.ofList chars) :=
  spells_ofList.mpr fun _ hc => A.ordinary fun he => h (he ▸ hc)

theorem spells_empty : A.Spells "" := by
  simp [Spells]

theorem spells_append : A.Spells (a ++ b) ↔ A.Spells a ∧ A.Spells b := by
  simp only [Spells, String.toList_append, List.forall_mem_append]

theorem Spells.append (ha : A.Spells a) (hb : A.Spells b) : A.Spells (a ++ b) :=
  spells_append.mpr ⟨ha, hb⟩

/-- A text between two words of the interpreter. -/
theorem Spells.framed {front back : List Char} (h : A.Spells a) (hf : escapeChar ∉ front)
    (hb : escapeChar ∉ back) : A.Spells (String.ofList front ++ a ++ String.ofList back) :=
  ((spells_word hf).append h).append (spells_word hb)

theorem Spells.intercalate (hs : A.Spells a) {texts : List String} (h : ∀ text ∈ texts, A.Spells text) :
    A.Spells (a.intercalate texts) := by
  rw [Spells, String.toList_intercalate]
  induction texts with
  | nil => simp
  | cons text rest ih =>
      obtain ⟨htext, hrest⟩ := List.forall_mem_cons.mp h
      cases rest with
      | nil =>
          rw [List.map_cons, List.map_nil, List.intercalate_singleton]
          exact htext
      | cons next rest =>
          rw [List.map_cons, List.map_cons, List.intercalate_cons_cons, List.append_assoc]
          exact List.forall_mem_append.mpr ⟨htext, List.forall_mem_append.mpr ⟨hs, ih hrest⟩⟩

theorem Spells.join {texts : List String} (h : ∀ text ∈ texts, A.Spells text) :
    A.Spells (String.join texts) := by
  induction texts with
  | nil => exact spells_empty
  | cons text rest ih =>
      obtain ⟨htext, hrest⟩ := List.forall_mem_cons.mp h
      rw [String.join_cons]
      exact htext.append (ih hrest)

theorem has_replicate {c : Char} (hc : A.has c) (count : Nat) : ∀ d ∈ List.replicate count c, A.has d :=
  fun _ hd => List.eq_of_mem_replicate hd ▸ hc

theorem has_dropBlankEnd {chars : List Char} (h : ∀ c ∈ chars, A.has c) :
    ∀ c ∈ dropBlankEnd chars, A.has c := by
  obtain ⟨blanks, hsplit, -⟩ := dropBlankEnd_append_blank chars
  intro c hc
  refine h c ?_
  rw [hsplit]
  exact List.mem_append_left _ hc

theorem Spells.trimEnd (h : A.Spells a) : A.Spells (trimEnd a) :=
  spells_ofList.mpr (has_dropBlankEnd h)

theorem Spells.trim (h : A.Spells a) : A.Spells (trim a) :=
  spells_ofList.mpr (has_dropBlankEnd fun c hc => h c ((List.dropWhile_suffix _).subset hc))

section Numbers

theorem has_digit {c : Char} (h : Token.isDigit c = true) : A.has c := by
  refine A.ordinary ?_
  rintro rfl
  exact absurd h (by decide)

theorem has_digits (n : Nat) : ∀ c ∈ Numeral.digits n, A.has c :=
  fun c hc => has_digit ((Numeral.digits_spec n).2.1 c hc)

theorem spells_ofNat (n : Nat) : A.Spells (Numeral.ofNat n) :=
  spells_ofList.mpr (has_digits n)

theorem spells_ofInt (n : Int) : A.Spells (Numeral.ofInt n) := by
  unfold Numeral.ofInt
  split
  · exact (spells_word (by decide)).append (spells_ofNat _)
  · exact spells_ofNat _

theorem has_zeros (count : Nat) : ∀ c ∈ List.replicate count '0', A.has c :=
  has_replicate (has_digit rfl) count

theorem has_withPoint {digits : List Char} (h : ∀ c ∈ digits, A.has c) (places : Nat) :
    ∀ c ∈ Decimal.withPoint digits places, A.has c := by
  unfold Decimal.withPoint
  split
  · exact h
  · have hpadded : ∀ c ∈ List.replicate (places + 1 - digits.length) '0' ++ digits, A.has c :=
      List.forall_mem_append.mpr ⟨has_zeros _, h⟩
    refine List.forall_mem_append.mpr ⟨fun c hc => hpadded c (List.mem_of_mem_take hc), ?_⟩
    refine List.forall_mem_cons.mpr ⟨A.ordinary (by decide), fun c hc => hpadded c (List.mem_of_mem_drop hc)⟩

theorem has_signText (d : Decimal) : ∀ c ∈ d.signText, A.has c := by
  unfold Decimal.signText
  split
  · simpa using A.ordinary (by decide)
  · simp

theorem spells_plain (d : Decimal) : A.Spells d.plain := by
  refine spells_ofList.mpr (List.forall_mem_append.mpr ⟨has_signText d, ?_⟩)
  unfold Decimal.plainDigits
  simp only
  split
  · split
    · exact has_digits _
    · exact List.forall_mem_append.mpr ⟨has_digits _, has_zeros _⟩
  · exact has_withPoint (has_digits _) _

theorem has_firstPoint {digits : List Char} (h : ∀ c ∈ digits, A.has c) :
    ∀ c ∈ Decimal.firstPoint digits, A.has c := by
  unfold Decimal.firstPoint
  split
  · exact h
  · exact h
  · simp only [List.forall_mem_cons] at h ⊢
    exact ⟨h.1, A.ordinary (by decide), h.2⟩

theorem spells_scientific (d : Decimal) : A.Spells d.scientific := by
  unfold Decimal.scientific
  split
  · exact spells_plain d
  · refine spells_ofList.mpr (List.forall_mem_append.mpr ⟨?_, ?_⟩)
    · exact List.forall_mem_append.mpr ⟨has_signText d, has_firstPoint (has_digits _)⟩
    · unfold Decimal.exponentText
      simp only [List.forall_mem_cons]
      refine ⟨A.ordinary (by decide), ?_, has_digits _⟩
      split <;> exact A.ordinary (by decide)

end Numbers

section Quotes

theorem has_hexDigits (width n : Nat) : ∀ c ∈ hexDigits width n, A.has c := by
  induction width with
  | zero => exact fun c hc => absurd hc List.not_mem_nil
  | succ width ih =>
      have hdigit : ∀ k < 16, Nat.digitChar k ≠ escapeChar := by decide
      change ∀ c ∈ Nat.digitChar _ :: hexDigits width n, A.has c
      exact List.forall_mem_cons.mpr ⟨A.ordinary (hdigit _ (Nat.mod_lt _ (by decide))), ih⟩

/-- Quotation adds backslashes, letters and digits. -/
theorem has_quotedChar {mark c : Char} (hc : A.has c) : ∀ d ∈ quotedChar mark c, A.has d := by
  have hslash : A.has '\\' := A.ordinary (by decide)
  have hhex (letter : Char) (hl : letter ≠ escapeChar) (width : Nat) :
      ∀ d ∈ '\\' :: letter :: hexDigits width c.toNat, A.has d :=
    List.forall_mem_cons.mpr ⟨hslash, List.forall_mem_cons.mpr ⟨A.ordinary hl, has_hexDigits _ _⟩⟩
  have hpair (letter : Char) (hl : A.has letter) : ∀ d ∈ ['\\', letter], A.has d := by
    simpa using ⟨hslash, hl⟩
  unfold quotedChar
  split
  · exact hpair c hc
  split
  · exact hpair _ (A.ordinary (by decide))
  split
  · exact hpair _ (A.ordinary (by decide))
  split
  · exact hpair _ (A.ordinary (by decide))
  split
  · simpa using hc
  split
  · exact hhex _ (by decide) 2
  split
  · exact hhex _ (by decide) 4
  · exact hhex _ (by decide) 8

theorem Spells.quoted (h : A.Spells a) : A.Spells (quoted a) := by
  have hmark : A.has (quoteMark a.toList) := by
    unfold quoteMark
    split <;> exact A.ordinary (by decide)
  refine spells_ofList.mpr (List.forall_mem_append.mpr ⟨List.forall_mem_cons.mpr ⟨hmark, ?_⟩, ?_⟩)
  · intro d hd
    obtain ⟨c, hc, hd⟩ := List.mem_flatMap.mp hd
    exact has_quotedChar (h c hc) d hd
  · simpa using hmark

end Quotes

section Templates

/-- The message is made of texts in the alphabet. -/
structure SpellsMessage (A : Alphabet) (m : Message) : Prop where
  template : A.Spells m.template
  snippet : ∀ snippet ∈ m.snippets, A.Spells snippet

theorem spellsMessage_one (ha : A.Spells a) (hb : A.Spells b) : A.SpellsMessage (.one a b) :=
  ⟨ha, by simpa [Message.one] using hb⟩

variable {m : Message}

/-- A filled template is made of its own characters and of its snippets. -/
theorem SpellsMessage.fill (h : A.SpellsMessage m) :
    Matched (fun text _ => A.Spells text) (fun defect => ∀ c ∈ defect.told, A.has c)
      (fill m.template m.snippets) (Text.fill m.template m.snippets) := by
  have hpieces : Piecewise A.has fun text _ => ∀ c ∈ text, A.has c :=
    ⟨by simp, fun hc h => List.forall_mem_cons.mpr ⟨hc, h⟩, fun ha hb => List.forall_mem_append.mpr ⟨ha, hb⟩⟩
  have hsnippets : List.Forall₂ (fun s _ : String => ∀ c ∈ s.toList, A.has c) m.snippets m.snippets :=
    List.forall₂_same.mpr h.snippet
  have hslots := matched_fillSlots hpieces hsnippets .plain (by simp [Mode.read]) .undecided h.template
  unfold Text.fill
  generalize fillSlots m.snippets .plain .undecided m.template.toList = filled at hslots ⊢
  cases hslots with
  | ok h => exact .ok (spells_ofList.mpr h)
  | error h => exact .error h

theorem spells_defect {defect : Defect} (h : ∀ c ∈ defect.told, A.has c) : A.Spells defect.text := by
  cases defect with
  | named name => exact Spells.quoted h
  | unfilled slot =>
      exact (spells_ofNat slot).framed (by decide) (by decide)
  | loneOpen | loneClose | openSlot | nestedSlot | noConversion | longConversion | openFormat | largeNumber
  | lateNumber | missingNumber | unsupported => exact spells_word (by decide)

theorem SpellsMessage.defect (h : A.SpellsMessage m) {defect : Defect} (hd : m.defect? = some defect) :
    A.Spells defect.text := by
  have hfill := h.fill
  unfold Message.defect? at hd
  generalize Text.fill m.template m.snippets = filled at hfill hd
  cases hfill with
  | ok _ => cases hd
  | error h =>
      cases hd
      exact spells_defect h

/-- The bare text of a message. -/
theorem SpellsMessage.text (h : A.SpellsMessage m) : A.Spells (m.text .plain) := by
  have hfill := h.fill
  have hbare : m.render .plain = Text.fill m.template m.snippets := by
    rw [Message.render]
    congr 1
    exact List.map_id m.snippets
  rw [Message.text, hbare]
  generalize Text.fill m.template m.snippets = filled at hfill ⊢
  cases hfill with
  | ok ht => exact ht
  | error _ => exact h.template

end Templates

end Alphabet

end Text

end ProtoScript
