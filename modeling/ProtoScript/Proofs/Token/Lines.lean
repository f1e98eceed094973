import ProtoScript.Proofs.Token.Layout
import ProtoScript.Proofs.Token.Shape

/-!
# Tokens and lines

No token goes beyond the end of its line, so reading one never passes a line end. In a source that ends
with a line end all offsets that are told to anyone therefore belong to characters of the source: those of
tokens, and the one at which the lexer fails.
-/

namespace ProtoScript.Token
open Scan

/-- `text` is what lies between `c` and `d`. -/
def Cursor.Reads (c : Cursor) (text : List Char) (d : Cursor) : Prop :=
  c.rest = text ++ d.rest ∧ d.index = c.index + text.length

/-- `d` stands behind `c`, on the same line. -/
def Cursor.SameLine (c d : Cursor) : Prop :=
  ∃ text, c.Reads text d ∧ '\n' ∉ text

/-- The characters in front of the cursor end with a line end, if there are any. -/
def Cursor.EndsLine (c : Cursor) : Prop :=
  c.rest ≠ [] → c.rest.getLast? = some '\n'

namespace Cursor
variable {c d e : Cursor} {text more : List Char}

theorem Reads.append (h : c.Reads text d) (h' : d.Reads more e) : c.Reads (text ++ more) e := by
  constructor
  · rw [h.1, h'.1, List.append_assoc]
  · rw [h'.2, h.2, List.length_append, Nat.add_assoc]

theorem reads_advance (c : Cursor) (count : Nat) : c.Reads (c.rest.take count) (c.advance count) :=
  ⟨(List.take_append_drop count c.rest).symm, rfl⟩

theorem Reads.endsLine (h : c.Reads text d) (hc : c.EndsLine) : d.EndsLine := by
  intro hd
  rw [EndsLine, h.1] at hc
  rw [← hc (by simp [hd]), List.getLast?_append, List.getLast?_eq_some_getLast hd, Option.some_or]

theorem Reads.stop_eq (h : c.Reads text d) : d.index + d.rest.length = c.index + c.rest.length := by
  rw [h.1, h.2, List.length_append, Nat.add_assoc]

theorem SameLine.refl (c : Cursor) : c.SameLine c :=
  ⟨[], ⟨rfl, rfl⟩, List.not_mem_nil⟩

theorem SameLine.trans (h : c.SameLine d) (h' : d.SameLine e) : c.SameLine e := by
  obtain ⟨text, hreads, hno⟩ := h
  obtain ⟨more, hreads', hno'⟩ := h'
  exact ⟨text ++ more, hreads.append hreads', fun h => (List.mem_append.mp h).elim hno hno'⟩

theorem sameLine_advance {count : Nat} (h : '\n' ∉ c.rest.take count) : c.SameLine (c.advance count) :=
  ⟨c.rest.take count, c.reads_advance count, h⟩

/-- A cursor on the line of a character stands in front of the end of that line. -/
theorem SameLine.index_lt (h : c.SameLine d) (hc : c.EndsLine) (hne : c.rest ≠ []) :
    d.index < c.index + c.rest.length := by
  obtain ⟨text, hreads, hno⟩ := h
  have hd : d.rest ≠ [] := by
    intro hnil
    have hlast := hc hne
    rw [hreads.1, hnil, List.append_nil] at hlast
    exact hno (List.mem_of_getLast? hlast)
  have hpos := List.length_pos_iff.mpr hd
  have hstop := hreads.stop_eq
  omega

end Cursor

/-- Characters in classes without the line end are no line ends. -/
theorem not_mem_take_of_startsIn {classes : List (Char → Bool)} {text : List Char}
    (hclasses : (classes.all fun inClass => !inClass '\n') = true) (h : startsIn classes text = true) :
    '\n' ∉ text.take classes.length := by
  induction classes generalizing text with
  | nil => simp
  | cons inClass classes ih =>
      simp only [List.all_cons, Bool.and_eq_true, Bool.not_eq_true'] at hclasses
      cases text with
      | nil => simp
      | cons c text =>
          simp only [startsIn, Bool.and_eq_true] at h
          rw [List.length_cons, List.take_succ_cons, List.mem_cons, not_or]
          refine ⟨?_, ih hclasses.2 h.2⟩
          rintro rfl
          exact Bool.false_ne_true (hclasses.1.symm.trans h.1)

/-- How a step ends that stays on the line of its cursor. If it fails, then it fails where it stands. -/
inductive Stays {α : Type} (c : Cursor) : EStateM.Result LexError Cursor α → Prop
  | ok {a : α} {d : Cursor} (h : c.SameLine d) : Stays c (.ok a d)
  | error {cause : Malformed} {d : Cursor} (h : c.SameLine d) : Stays c (.error ⟨cause, d.index⟩ d)

/-- A step that reads characters of one line. -/
def OneLine {α : Type} (step : Scan α) : Prop :=
  ∀ c, Stays c (step c)

namespace OneLine
variable {α β : Type}

theorem pure (a : α) : OneLine (Pure.pure a : Scan α) :=
  fun c => .ok (.refl c)

theorem bind {step : Scan α} {next : α → Scan β} (h : OneLine step) (h' : ∀ a, OneLine (next a)) :
    OneLine (step >>= next) := by
  intro c
  have hstep := h c
  simp only [Bind.bind, EStateM.bind]
  generalize step c = r at hstep ⊢
  cases hstep with
  | error hline => exact .error hline
  | @ok a d hline =>
      have hnext := h' a d
      simp only
      generalize next a d = r at hnext ⊢
      cases hnext with
      | ok hline' => exact .ok (hline.trans hline')
      | error hline' => exact .error (hline.trans hline')

theorem discard {step : Scan α} (h : OneLine step) : OneLine (Functor.discard step) :=
  h.bind fun _ => .pure _

theorem fail (cause : Malformed) : OneLine (Scan.fail cause : Scan α) :=
  fun c => .error (.refl c)

theorem get : OneLine (MonadState.get : Scan Cursor) :=
  fun c => .ok (.refl c)

theorem pending : OneLine Scan.pending :=
  fun c => .ok (.refl c)

theorem looksAt (classes : List (Char → Bool)) : OneLine (Scan.looksAt classes) :=
  fun c => .ok (.refl c)

theorem emitAs (kind : Kind) : OneLine (Scan.emitAs kind) :=
  fun _ => .ok ⟨[], ⟨rfl, rfl⟩, List.not_mem_nil⟩

theorem accept {classes : List (Char → Bool)} (h : (classes.all fun inClass => !inClass '\n') = true) :
    OneLine (Scan.accept classes) := by
  intro c
  rw [accept_apply]
  split
  · next hlook => exact .ok (Cursor.sameLine_advance (not_mem_take_of_startsIn h hlook))
  · exact .ok (.refl c)

theorem skipWhile {inClass : Char → Bool} (h : inClass '\n' = false) :
    OneLine (Scan.skipWhile inClass) := by
  intro c
  refine .ok (Cursor.sameLine_advance fun hmem => ?_)
  rw [← List.prefix_iff_eq_take.mp (List.takeWhile_prefix inClass)] at hmem
  exact Bool.false_ne_true (h.symm.trans (List.all_eq_true.mp List.all_takeWhile _ hmem))

end OneLine

theorem oneLine_lexExponent : OneLine lexExponent := by
  refine (OneLine.accept rfl).bind fun marked => ?_
  split
  · refine (OneLine.accept rfl).discard.bind fun _ => ?_
    refine (OneLine.accept rfl).bind fun found => ?_
    split
    · exact .skipWhile rfl
    · exact OneLine.pending.bind fun _ => .fail _
  · exact .pure _

theorem oneLine_lexNumber : OneLine lexNumber := by
  refine (OneLine.accept rfl).discard.bind fun _ => (OneLine.skipWhile rfl).bind fun _ => ?_
  refine (OneLine.accept rfl).bind fun fraction => ?_
  have htail : OneLine (do
      lexExponent
      emitAs (if fraction then .decimal else .integer)) :=
    oneLine_lexExponent.bind fun _ => .emitAs _
  cases fraction with
  | true => exact (OneLine.skipWhile rfl).bind fun _ => htail
  | false => exact htail

theorem oneLine_lexEscape : OneLine lexEscape := by
  refine (OneLine.accept rfl).bind fun found => ?_
  split
  · exact .pure _
  · exact OneLine.get.bind fun _ => .fail _

theorem oneLine_lexCharacterBody : OneLine lexCharacterBody := by
  refine (OneLine.accept rfl).bind fun backslash => ?_
  split
  · exact oneLine_lexEscape
  · refine (OneLine.accept rfl).bind fun found => ?_
    split
    · exact .pure _
    · refine OneLine.pending.bind fun _ => (OneLine.looksAt _).bind fun other => ?_
      split <;> exact .fail _

theorem oneLine_lexCharacter : OneLine lexCharacter := by
  refine (OneLine.accept rfl).discard.bind fun _ => ?_
  refine oneLine_lexCharacterBody.bind fun _ => (OneLine.accept rfl).bind fun closed => ?_
  split
  · exact .emitAs _
  · exact OneLine.pending.bind fun _ => (OneLine.fail _).bind fun _ => .emitAs _

theorem oneLine_lexStringBody (room : Nat) : OneLine (lexStringBody room) := by
  induction room with
  | zero => exact .pure _
  | succ room ih =>
      refine (OneLine.accept rfl).bind fun backslash => ?_
      split
      · exact oneLine_lexEscape.bind fun _ => ih
      · refine (OneLine.accept rfl).bind fun plain => ?_
        split
        · exact ih
        · exact .pure _

theorem oneLine_lexString : OneLine lexString := by
  refine (OneLine.accept rfl).discard.bind fun _ => OneLine.get.bind fun c => ?_
  refine (oneLine_lexStringBody _).bind fun _ => (OneLine.accept rfl).bind fun closed => ?_
  split
  · exact .emitAs _
  · exact OneLine.pending.bind fun _ => (OneLine.fail _).bind fun _ => .emitAs _

theorem oneLine_lexOperator : OneLine lexOperator := by
  refine (OneLine.accept rfl).bind fun relation => ?_
  split
  · exact (OneLine.accept rfl).discard.bind fun _ => .emitAs _
  · refine (OneLine.accept rfl).bind fun symbol => ?_
    split
    · exact .emitAs _
    · refine OneLine.get.bind fun c => ?_
      split <;> exact (OneLine.fail _).bind fun _ => .emitAs _

/-- Reading a token does not pass a line end, whether or not it fails. -/
theorem oneLine_lexToken : OneLine lexToken := by
  refine OneLine.get.bind fun c => ?_
  split
  · exact (OneLine.accept rfl).discard.bind fun _ => (OneLine.skipWhile rfl).bind fun _ => .emitAs _
  split
  · exact oneLine_lexNumber
  split
  · exact oneLine_lexCharacter
  split
  · exact oneLine_lexString
  · exact oneLine_lexOperator

/-- Up to a final line end, a run of the lexer fails in front of a character. -/
theorem offset_lt_of_lexLoop {room : Nat} {c : Cursor} {e : LexError} (hc : c.EndsLine)
    (h : (lexLoop room c).error = some e) : e.offset < c.index + c.rest.length := by
  induction room generalizing c with
  | zero => cases h
  | succ room ih =>
      have hlater {text : List Char} {d : Cursor} (hd : c.Reads text d)
          (h : (lexLoop room d).error = some e) : e.offset < c.index + c.rest.length := by
        rw [← hd.stop_eq]
        exact ih (hd.endsLine hc) h
      unfold lexLoop at h
      split at h
      · cases h
      · next hne =>
          split at h
          · have hspace : c.Reads _ (c.skipWhile isSpace).clear := c.reads_advance _
            rw [lexSpace_apply] at h
            exact hlater hspace h
          split at h
          · next hlook =>
              have hcomment : c.Reads _ ((c.advance 2).skipWhile (· ≠ '\n')).clear :=
                (c.reads_advance 2).append ((c.advance 2).reads_advance _)
              rw [lexComment_apply hlook] at h
              exact hlater hcomment h
          have htoken := oneLine_lexToken c
          split at h
          · next token d hd =>
              rw [hd] at htoken
              cases htoken with
              | ok hline =>
                  obtain ⟨text, hreads, -⟩ := hline
                  exact hlater hreads h
          · next error d hd =>
              rw [hd] at htoken
              cases h
              cases htoken with
              | error hline => exact hline.index_lt hc (by simpa using hne)

/-- The lexer fails in front of a character, if the source ends with a line end. -/
theorem offset_lt_of_lex {source : String} {e : LexError} (hs : source.toList.getLast? = some '\n')
    (h : (lex source).error = some e) : e.offset < source.length := by
  have hends : (Cursor.start source).EndsLine := fun _ => hs
  have hlt : e.offset < 0 + source.toList.length := offset_lt_of_lexLoop hends h
  rwa [Nat.zero_add, String.length_toList] at hlt

theorem Placed.lt {rest text : List Char} {index : Nat} {tokens : List Token} {offsets : List Nat}
    (h : Placed rest index text tokens offsets) : ∀ offset ∈ offsets, offset < index + text.length := by
  induction h with
  | gap => simp
  | @token index gap text token tokens offsets hg hne h ih =>
      have hpositive : 0 < token.literal.length := Nat.pos_of_ne_zero (by simpa using hne)
      have hlength : token.literal.toList.length = token.literal.length := String.length_toList
      simp only [List.length_append, hlength]
      refine List.forall_mem_cons.mpr ⟨by omega, fun offset ho => ?_⟩
      have hlt := ih offset ho
      omega

theorem Placed.count {rest text : List Char} {index : Nat} {tokens : List Token} {offsets : List Nat}
    (h : Placed rest index text tokens offsets) : offsets.length = tokens.length := by
  induction h with
  | gap => rfl
  | token _ _ _ ih => exact congrArg (· + 1) ih

theorem placed_of_lex {source : String} (h : (lex source).error = none) :
    Placed [] 0 source.toList (lex source).tokens (lex source).offsets := by
  have harranged : Arranged 0 source.toList (lex source) := arranged_lexLoop (Nat.le_refl _)
  cases harranged with
  | read hp _ => exact hp
  | failed _ _ _ _ he =>
      rw [he] at h
      cases h

/-- The tokens of a source start at characters of it. -/
theorem offsets_lt_of_lex {source : String} (h : (lex source).error = none) :
    ∀ offset ∈ (lex source).offsets, offset < source.length := by
  intro offset ho
  have hlt := (placed_of_lex h).lt offset ho
  rwa [Nat.zero_add, String.length_toList] at hlt

end ProtoScript.Token
