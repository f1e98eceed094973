import ProtoScript.Proofs.Text.Alphabet
import ProtoScript.Proofs.Token.Shape
import ProtoScript.Token.Lexer

/-!
# The letters of tokens

Reading takes characters from the source and adds none. So the tokens of a source are spelled in its
alphabet, and so is whatever a malformed token is shown with.
-/

namespace ProtoScript.Token
open ProtoScript.Text ProtoScript.Text.Alphabet Scan

/-- The texts that show what is wrong with a token. -/
def Malformed.words : Malformed → List String
  | .exponent text | .character text | .openCharacter text | .openString text | .escape text => [text]
  | .symbol c => [c.toString]
  | .sourceEnd => []

theorem Malformed.spellsMessage {A : Alphabet} {cause : Malformed}
    (h : ∀ word ∈ cause.words, A.Spells word) : A.SpellsMessage cause.message := by
  cases cause with
  | sourceEnd => exact spellsMessage_one (spells_word (by decide)) spells_empty
  | exponent | character | openCharacter | openString | escape | symbol =>
      exact spellsMessage_one (spells_word (by decide)) (h _ List.mem_cons_self)

/-- The characters around the cursor are in the alphabet. -/
structure Cursor.In (A : Alphabet) (c : Cursor) : Prop where
  pending : ∀ ch ∈ c.pending, A.has ch
  rest : ∀ ch ∈ c.rest, A.has ch

namespace Cursor.In
variable {A : Alphabet} {c : Cursor}

theorem advance (h : c.In A) (count : Nat) : (c.advance count).In A where
  pending := by
    refine List.forall_mem_append.mpr ⟨fun ch hch => ?_, h.pending⟩
    exact h.rest ch (List.mem_of_mem_take (List.mem_reverse.mp hch))
  rest ch hch := h.rest ch (List.mem_of_mem_drop hch)

theorem clear (h : c.In A) : c.clear.In A :=
  ⟨by simp [Cursor.clear], h.rest⟩

theorem pendingText (h : c.In A) : A.Spells c.pendingText :=
  spells_ofList.mpr fun ch hch => h.pending ch (List.mem_reverse.mp hch)

end Cursor.In

section Steps
variable {α β : Type} {A : Alphabet} {post : α → Prop}

/-- How a step of reading ends that keeps to the alphabet. -/
inductive Ends (A : Alphabet) (post : α → Prop) : EStateM.Result LexError Cursor α → Prop
  | ok {a : α} {d : Cursor} (ha : post a) (hd : d.In A) : Ends A post (.ok a d)
  | error {e : LexError} {d : Cursor} (he : ∀ word ∈ e.cause.words, A.Spells word) (hd : d.In A) :
      Ends A post (.error e d)

/-- The step of reading keeps to the alphabet, and gives what `post` says. -/
def Adheres (A : Alphabet) (post : α → Prop) (step : Scan α) : Prop :=
  ∀ c, c.In A → Ends A post (step c)

namespace Adheres

theorem pure {a : α} (ha : post a) : Adheres A post (Pure.pure a) :=
  fun _ hc => .ok ha hc

theorem bind {mid : α → Prop} {post : β → Prop} {step : Scan α} {next : α → Scan β}
    (h : Adheres A mid step) (h' : ∀ a, mid a → Adheres A post (next a)) :
    Adheres A post (step >>= next) := by
  intro c hc
  have hstep := h c hc
  simp only [Bind.bind, EStateM.bind]
  generalize step c = r at hstep ⊢
  cases hstep with
  | ok ha hd => exact h' _ ha _ hd
  | error he hd => exact .error he hd

theorem discard {step : Scan α} (h : Adheres A post step) :
    Adheres A (fun _ => True) (Functor.discard step) :=
  h.bind fun _ _ => .pure trivial

theorem fail {cause : Malformed} (h : ∀ word ∈ cause.words, A.Spells word) :
    Adheres A post (Scan.fail cause) :=
  fun _ hc => .error h hc

theorem get : Adheres A (Cursor.In A) (MonadState.get : Scan Cursor) :=
  fun _ hc => .ok hc hc

theorem pending : Adheres A A.Spells Scan.pending :=
  fun _ hc => .ok hc.pendingText hc

theorem looksAt (classes : List (Char → Bool)) : Adheres A (fun _ => True) (Scan.looksAt classes) :=
  fun _ hc => .ok trivial hc

theorem accept (classes : List (Char → Bool)) : Adheres A (fun _ => True) (Scan.accept classes) := by
  intro c hc
  rw [accept_apply]
  split
  · exact .ok trivial (hc.advance _)
  · exact .ok trivial hc

theorem skipWhile (inClass : Char → Bool) : Adheres A (fun _ => True) (Scan.skipWhile inClass) :=
  fun _ hc => .ok trivial (hc.advance _)

theorem emitAs (kind : Kind) : Adheres A (fun token : Token => A.Spells token.literal) (Scan.emitAs kind) :=
  fun _ hc => .ok hc.pendingText hc.clear

/-- A failure that shows the text of the token in progress. -/
theorem failPending {cause : String → Malformed} (hcause : ∀ text, (cause text).words = [text]) :
    Adheres A post (do Scan.fail (cause (← Scan.pending))) :=
  pending.bind fun text ht => .fail (by simpa [hcause] using ht)

end Adheres

end Steps

section Reading
variable {A : Alphabet}

theorem adheres_lexExponent : Adheres A (fun _ => True) lexExponent := by
  refine (Adheres.accept _).bind fun marked _ => ?_
  split
  · refine (Adheres.accept _).discard.bind fun _ _ => (Adheres.accept _).bind fun found _ => ?_
    split
    · exact .skipWhile _
    · exact .failPending fun _ => rfl
  · exact .pure trivial

theorem adheres_lexNumber : Adheres A (fun token => A.Spells token.literal) lexNumber := by
  refine (Adheres.accept _).discard.bind fun _ _ => (Adheres.skipWhile _).bind fun _ _ => ?_
  refine (Adheres.accept _).bind fun fraction _ => ?_
  have htail : Adheres A (fun token => A.Spells token.literal) (do
      lexExponent
      emitAs (if fraction then .decimal else .integer)) :=
    adheres_lexExponent.bind fun _ _ => .emitAs _
  cases fraction with
  | true => exact (Adheres.skipWhile _).bind fun _ _ => htail
  | false => exact htail

theorem adheres_lexEscape : Adheres A (fun _ => True) lexEscape := by
  refine (Adheres.accept _).bind fun found _ => ?_
  split
  · exact .pure trivial
  · refine Adheres.get.bind fun c hc => .fail ?_
    have htext : A.Spells (String.ofList ('\\' :: c.rest.take 1)) := by
      refine spells_ofList.mpr (List.forall_mem_cons.mpr ⟨A.ordinary (by decide), fun ch hch => ?_⟩)
      exact hc.rest ch (List.mem_of_mem_take hch)
    simpa [Malformed.words] using htext

theorem adheres_lexCharacterBody : Adheres A (fun _ => True) lexCharacterBody := by
  refine (Adheres.accept _).bind fun backslash _ => ?_
  split
  · exact adheres_lexEscape
  · refine (Adheres.accept _).bind fun found _ => ?_
    split
    · exact .pure trivial
    · refine Adheres.pending.bind fun text ht => (Adheres.looksAt _).bind fun other _ => ?_
      split <;> exact .fail (by simpa [Malformed.words] using ht)

/-- The last quote of a literal, or the text of the open literal. -/
theorem adheres_close (quote : Char) (kind : Kind) {cause : String → Malformed}
    (hcause : ∀ text, (cause text).words = [text]) :
    Adheres A (fun token => A.Spells token.literal) (do
      unless ← Scan.accept [only quote] do
        Scan.fail (cause (← Scan.pending))
      Scan.emitAs kind) := by
  refine (Adheres.accept _).bind fun closed _ => ?_
  split
  · exact .emitAs _
  · refine Adheres.pending.bind fun text ht => ?_
    have hfail : Adheres A (fun _ : Unit => True) (Scan.fail (cause text)) :=
      .fail (by simpa [hcause] using ht)
    exact hfail.bind fun _ _ => .emitAs _

theorem adheres_lexCharacter : Adheres A (fun token => A.Spells token.literal) lexCharacter := by
  refine (Adheres.accept _).discard.bind fun _ _ => adheres_lexCharacterBody.bind fun _ _ => ?_
  exact adheres_close _ _ fun _ => rfl

theorem adheres_lexStringBody (room : Nat) : Adheres A (fun _ => True) (lexStringBody room) := by
  induction room with
  | zero => exact .pure trivial
  | succ room ih =>
      refine (Adheres.accept _).bind fun backslash _ => ?_
      split
      · exact adheres_lexEscape.bind fun _ _ => ih
      · refine (Adheres.accept _).bind fun plain _ => ?_
        split
        · exact ih
        · exact .pure trivial

theorem adheres_lexString : Adheres A (fun token => A.Spells token.literal) lexString := by
  refine (Adheres.accept _).discard.bind fun _ _ => Adheres.get.bind fun c _ => ?_
  exact (adheres_lexStringBody _).bind fun _ _ => adheres_close _ _ fun _ => rfl

theorem adheres_lexOperator : Adheres A (fun token => A.Spells token.literal) lexOperator := by
  refine (Adheres.accept _).bind fun relation _ => ?_
  split
  · exact (Adheres.accept _).discard.bind fun _ _ => .emitAs _
  · refine (Adheres.accept _).bind fun symbol _ => ?_
    split
    · exact .emitAs _
    · refine Adheres.get.bind fun c hc => ?_
      split
      · have hfail : Adheres A (fun _ : Unit => True) (Scan.fail .sourceEnd) :=
          .fail (by simp [Malformed.words])
        exact hfail.bind fun _ _ => .emitAs _
      · next ch rest hrest =>
          have hhead : A.has ch := hc.rest ch (hrest ▸ List.mem_cons_self)
          have htext : A.Spells ch.toString := by simpa [Spells, Char.toString] using hhead
          have hfail : Adheres A (fun _ : Unit => True) (Scan.fail (.symbol ch)) :=
            .fail (by simpa [Malformed.words] using htext)
          exact hfail.bind fun _ _ => .emitAs _

theorem adheres_lexToken : Adheres A (fun token => A.Spells token.literal) lexToken := by
  refine Adheres.get.bind fun c _ => ?_
  split
  · exact (Adheres.accept _).discard.bind fun _ _ => (Adheres.skipWhile _).bind fun _ _ => .emitAs _
  split
  · exact adheres_lexNumber
  split
  · exact adheres_lexCharacter
  split
  · exact adheres_lexString
  · exact adheres_lexOperator

theorem letters_lexLoop {room : Nat} {c : Cursor} (hc : c.In A) :
    (∀ token ∈ (lexLoop room c).tokens, A.Spells token.literal) ∧
      ∀ e ∈ (lexLoop room c).error, ∀ word ∈ e.cause.words, A.Spells word := by
  induction room generalizing c with
  | zero => simp [lexLoop]
  | succ room ih =>
      unfold lexLoop
      split
      · simp
      split
      · rw [lexSpace_apply]
        exact ih (hc.advance _).clear
      split
      · next hlook =>
          rw [lexComment_apply hlook]
          exact ih ((hc.advance _).advance _).clear
      have htoken := adheres_lexToken c hc
      generalize lexToken c = r at htoken ⊢
      cases htoken with
      | ok ht hd => exact ⟨List.forall_mem_cons.mpr ⟨ht, (ih hd).1⟩, (ih hd).2⟩
      | error he hd => exact ⟨by simp, by simpa using he⟩

/-- The tokens of a source are spelled in its alphabet, and so is what shows an error. -/
theorem letters_lex {source : String} (h : A.Spells source) :
    (∀ token ∈ (lex source).tokens, A.Spells token.literal) ∧
      ∀ e ∈ (lex source).error, ∀ word ∈ e.cause.words, A.Spells word :=
  letters_lexLoop ⟨by simp [Cursor.start], h⟩

end Reading

end ProtoScript.Token
