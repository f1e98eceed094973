import ProtoScript.Proofs.Token.Shape

/-!
# Reading a source that starts elsewhere

The lexer counts characters but never decides by the count. If a source is moved, then the same tokens are
read from it, and the same mistake is found; all offsets move with the source.
-/

namespace ProtoScript.Token

/-- The cursor with `count` more characters behind it. -/
def Cursor.shift (count : Nat) (c : Cursor) : Cursor :=
  { c with index := c.index + count }

/-- The failure with `count` more characters in front of it. -/
def LexError.shift (count : Nat) (e : LexError) : LexError :=
  { e with offset := e.offset + count }

/-- What reading came to, with `count` more characters in front. -/
def Lexing.shift (count : Nat) (lexing : Lexing) : Lexing where
  tokens := lexing.tokens
  offsets := lexing.offsets.map (· + count)
  error := lexing.error.map (·.shift count)
  cursor := lexing.cursor.shift count

/-- The outcome of a step, with `count` more characters in front. -/
def shiftOutcome {α : Type} (count : Nat) :
    EStateM.Result LexError Cursor α → EStateM.Result LexError Cursor α
  | .ok a c => .ok a (c.shift count)
  | .error e c => .error (e.shift count) (c.shift count)

theorem Cursor.advance_shift (c : Cursor) (count n : Nat) :
    (c.shift count).advance n = (c.advance n).shift count := by
  simp only [advance, shift, Nat.add_right_comm]

/-- A step that moves with its source. -/
def Shifts {α : Type} (step : Scan α) : Prop :=
  ∀ count c, step (c.shift count) = shiftOutcome count (step c)

namespace Shifts
variable {α β : Type}

theorem pure (a : α) : Shifts (Pure.pure a : Scan α) :=
  fun _ _ => rfl

theorem bind {step : Scan α} {next : α → Scan β} (h : Shifts step) (h' : ∀ a, Shifts (next a)) :
    Shifts (step >>= next) := by
  intro count c
  simp only [Bind.bind, EStateM.bind, h count c]
  cases step c with
  | ok a d => exact h' a count d
  | error e d => rfl

theorem discard {step : Scan α} (h : Shifts step) : Shifts (Functor.discard step) :=
  h.bind fun _ => .pure _

/-- What a step does with its cursor moves with the source, if the count has no say in it. -/
theorem get {next : Cursor → Scan α} (hn : ∀ count c, next (c.shift count) = next c)
    (h : ∀ c, Shifts (next c)) : Shifts (MonadState.get >>= next) := by
  intro count c
  change next (c.shift count) (c.shift count) = shiftOutcome count (next c c)
  rw [hn, h]

theorem fail (cause : Malformed) : Shifts (Scan.fail cause : Scan α) :=
  fun _ _ => rfl

theorem pending : Shifts Scan.pending :=
  fun _ _ => rfl

theorem looksAt (classes : List (Char → Bool)) : Shifts (Scan.looksAt classes) :=
  fun _ _ => rfl

theorem emitAs (kind : Kind) : Shifts (Scan.emitAs kind) :=
  fun _ _ => rfl

theorem accept (classes : List (Char → Bool)) : Shifts (Scan.accept classes) := by
  intro count c
  have hlook : (c.shift count).looksAt classes = c.looksAt classes := rfl
  rw [Scan.accept_apply, Scan.accept_apply, hlook, c.advance_shift]
  cases c.looksAt classes <;> rfl

theorem skipWhile (inClass : Char → Bool) : Shifts (Scan.skipWhile inClass) :=
  fun count c => congrArg (EStateM.Result.ok ()) (c.advance_shift count _)

end Shifts

theorem shifts_lexExponent : Shifts lexExponent := by
  refine (Shifts.accept _).bind fun marked => ?_
  split
  · refine (Shifts.accept _).discard.bind fun _ => (Shifts.accept _).bind fun found => ?_
    split
    · exact .skipWhile _
    · exact Shifts.pending.bind fun _ => .fail _
  · exact .pure _

theorem shifts_lexNumber : Shifts lexNumber := by
  refine (Shifts.accept _).discard.bind fun _ => (Shifts.skipWhile _).bind fun _ => ?_
  refine (Shifts.accept _).bind fun fraction => ?_
  have htail : Shifts (do
      lexExponent
      Scan.emitAs (if fraction then .decimal else .integer)) :=
    shifts_lexExponent.bind fun _ => .emitAs _
  cases fraction with
  | true => exact (Shifts.skipWhile _).bind fun _ => htail
  | false => exact htail

theorem shifts_lexEscape : Shifts lexEscape := by
  refine (Shifts.accept _).bind fun found => ?_
  split
  · exact .pure _
  · exact .get (fun _ _ => rfl) fun _ => .fail _

theorem shifts_lexCharacterBody : Shifts lexCharacterBody := by
  refine (Shifts.accept _).bind fun backslash => ?_
  split
  · exact shifts_lexEscape
  · refine (Shifts.accept _).bind fun found => ?_
    split
    · exact .pure _
    · refine Shifts.pending.bind fun _ => (Shifts.looksAt _).bind fun other => ?_
      split <;> exact .fail _

theorem shifts_lexCharacter : Shifts lexCharacter := by
  refine (Shifts.accept _).discard.bind fun _ => shifts_lexCharacterBody.bind fun _ => ?_
  refine (Shifts.accept _).bind fun closed => ?_
  split
  · exact .emitAs _
  · exact Shifts.pending.bind fun _ => (Shifts.fail _).bind fun _ => .emitAs _

theorem shifts_lexStringBody (room : Nat) : Shifts (lexStringBody room) := by
  induction room with
  | zero => exact .pure _
  | succ room ih =>
      refine (Shifts.accept _).bind fun backslash => ?_
      split
      · exact shifts_lexEscape.bind fun _ => ih
      · refine (Shifts.accept _).bind fun plain => ?_
        split
        · exact ih
        · exact .pure _

theorem shifts_lexString : Shifts lexString := by
  refine (Shifts.accept _).discard.bind fun _ => .get (fun _ _ => rfl) fun c => ?_
  refine (shifts_lexStringBody _).bind fun _ => (Shifts.accept _).bind fun closed => ?_
  split
  · exact .emitAs _
  · exact Shifts.pending.bind fun _ => (Shifts.fail _).bind fun _ => .emitAs _

theorem shifts_lexOperator : Shifts lexOperator := by
  refine (Shifts.accept _).bind fun relation => ?_
  split
  · exact (Shifts.accept _).discard.bind fun _ => .emitAs _
  · refine (Shifts.accept _).bind fun symbol => ?_
    split
    · exact .emitAs _
    · refine .get (fun _ _ => rfl) fun c => ?_
      split <;> exact (Shifts.fail _).bind fun _ => .emitAs _

/-- Reading a token moves with the source. -/
theorem shifts_lexToken : Shifts lexToken := by
  refine .get (fun _ _ => rfl) fun c => ?_
  split
  · exact (Shifts.accept _).discard.bind fun _ => (Shifts.skipWhile _).bind fun _ => .emitAs _
  split
  · exact shifts_lexNumber
  split
  · exact shifts_lexCharacter
  split
  · exact shifts_lexString
  · exact shifts_lexOperator

theorem shifts_lexSpace : Shifts lexSpace :=
  (Shifts.skipWhile _).bind fun _ _ _ => rfl

theorem shifts_lexComment : Shifts lexComment :=
  (Shifts.accept _).discard.bind fun _ => (Shifts.skipWhile _).bind fun _ _ _ => rfl

/-- A run of the lexer moves with the source. -/
theorem lexLoop_shift (room count : Nat) (c : Cursor) :
    lexLoop room (c.shift count) = (lexLoop room c).shift count := by
  induction room generalizing c with
  | zero => rfl
  | succ room ih =>
      unfold lexLoop
      have hlook (classes : List (Char → Bool)) :
          (c.shift count).looksAt classes = c.looksAt classes := rfl
      simp only [hlook, shifts_lexSpace count c, shifts_lexComment count c, shifts_lexToken count c]
      change (if c.rest.isEmpty then _ else _) = _
      split
      · rfl
      split
      · cases lexSpace c <;> exact ih _
      split
      · cases lexComment c <;> exact ih _
      · cases lexToken c with
        | ok token d =>
            simp only [shiftOutcome, ih]
            rfl
        | error e d => rfl

end ProtoScript.Token
