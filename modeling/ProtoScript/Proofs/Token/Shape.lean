import ProtoScript.Token.Lexer

/-!
# How tokens start

The class of a token is decided by its first characters, and nothing that is read later changes them.
So a token that was read from a source has a text that starts as its class demands; in particular no
number, character, string or symbol is spelled like a keyword, and no name like a symbol.
-/

namespace ProtoScript.Token

/-- How a text of each class starts. -/
def Kind.starts : Kind → List Char → Bool
  | .identifier, text => startsIn [isNameStart] text
  | .integer, text | .decimal, text => startsIn [isSign, isDigit] text || startsIn [isDigit] text
  | .character, text => startsIn [only '\''] text
  | .string, text => startsIn [only '"'] text
  | .operator, text => startsIn [isSymbol] text

/-- A token whose text starts as its class demands. -/
def Shaped (token : Token) : Prop :=
  token.kind.starts token.literal.toList = true

/-- A token that reading some source gives. -/
def Emitted (token : Token) : Prop :=
  ∃ source, token ∈ (lex source).tokens

theorem startsIn_append {classes : List (Char → Bool)} {text : List Char}
    (h : startsIn classes text = true) (more : List Char) :
    startsIn classes (text ++ more) = true := by
  induction classes generalizing text with
  | nil => rfl
  | cons inClass classes ih =>
      cases text with
      | nil => cases h
      | cons c text =>
          simp only [startsIn, Bool.and_eq_true] at h
          simp only [List.cons_append, startsIn, Bool.and_eq_true]
          exact ⟨h.1, ih h.2⟩

/-- Only as many characters count as there are classes. -/
theorem startsIn_take {classes : List (Char → Bool)} {text : List Char} {count : Nat}
    (h : startsIn classes text = true) (hc : classes.length ≤ count) :
    startsIn classes (text.take count) = true := by
  induction classes generalizing text count with
  | nil => rfl
  | cons inClass classes ih =>
      obtain ⟨count, rfl⟩ : ∃ n, count = n + 1 := ⟨count - 1, by simp at hc; omega⟩
      cases text with
      | nil => cases h
      | cons c text =>
          simp only [startsIn, Bool.and_eq_true] at h
          simp only [List.take_succ_cons, startsIn, Bool.and_eq_true]
          exact ⟨h.1, ih h.2 (by simpa using hc)⟩

theorem Kind.starts_append {kind : Kind} {text : List Char} (h : kind.starts text = true)
    (more : List Char) : kind.starts (text ++ more) = true := by
  cases kind with
  | integer | decimal =>
      simp only [Kind.starts, Bool.or_eq_true] at h ⊢
      exact h.imp (startsIn_append · more) (startsIn_append · more)
  | identifier | character | string | operator => exact startsIn_append h more

/-- `d` stands behind `c` and no token ended between them: the text between them is pending. -/
def Cursor.Ahead (c d : Cursor) : Prop :=
  ∃ text, c.rest = text ++ d.rest ∧ d.pending = text.reverse ++ c.pending ∧
    d.index = c.index + text.length

theorem Cursor.Ahead.refl (c : Cursor) : c.Ahead c :=
  ⟨[], rfl, rfl, rfl⟩

theorem Cursor.Ahead.trans {c d e : Cursor} (h : c.Ahead d) (h' : d.Ahead e) : c.Ahead e := by
  obtain ⟨text, hr, hp, hi⟩ := h
  obtain ⟨more, hr', hp', hi'⟩ := h'
  refine ⟨text ++ more, ?_, ?_, ?_⟩
  · rw [hr, hr', List.append_assoc]
  · rw [hp', hp, List.reverse_append, List.append_assoc]
  · rw [hi', hi, List.length_append, Nat.add_assoc]

theorem Cursor.ahead_advance (c : Cursor) (count : Nat) : c.Ahead (c.advance count) :=
  ⟨c.rest.take count, (List.take_append_drop count c.rest).symm, rfl, rfl⟩

namespace Scan
variable {α β : Type}

theorem bind_ok {step : Scan α} {next : α → Scan β} {c e : Cursor} {b : β}
    (h : (step >>= next) c = .ok b e) : ∃ a d, step c = .ok a d ∧ next a d = .ok b e := by
  simp only [bind, EStateM.bind] at h
  split at h
  next a d hs => exact ⟨a, d, hs, h⟩
  next => cases h

theorem accept_apply (classes : List (Char → Bool)) (c : Cursor) :
    accept classes c =
      .ok (c.looksAt classes) (if c.looksAt classes then c.advance classes.length else c) := by
  have h : accept classes c =
      (do if c.looksAt classes then modify (·.advance classes.length)
          return c.looksAt classes : Scan Bool) c := rfl
  rw [h]
  cases c.looksAt classes <;> rfl

theorem accept_of_looksAt {classes : List (Char → Bool)} {c : Cursor}
    (hc : c.looksAt classes = true) :
    accept classes c = .ok true (c.advance classes.length) := by
  rw [accept_apply, hc]
  rfl

theorem accept_of_not_looksAt {classes : List (Char → Bool)} {c : Cursor}
    (hc : c.looksAt classes = false) : accept classes c = .ok false c := by
  rw [accept_apply, hc]
  rfl

/-- A step that ends no token: what it reads becomes pending. -/
def Gathers (step : Scan α) : Prop :=
  ∀ c a d, step c = .ok a d → c.Ahead d

theorem Gathers.pure (a : α) : Gathers (Pure.pure a : Scan α) := by
  intro c b d h
  cases h
  exact .refl c

theorem Gathers.bind {step : Scan α} {next : α → Scan β} (h : Gathers step)
    (h' : ∀ a, Gathers (next a)) : Gathers (step >>= next) := by
  intro c b e he
  obtain ⟨a, d, hd, he⟩ := bind_ok he
  exact (h c a d hd).trans (h' a d b e he)

theorem gathers_fail (cause : Malformed) : Gathers (fail cause : Scan α) := by
  intro c a d h
  cases h

theorem gathers_get : Gathers (get : Scan Cursor) := by
  intro c a d h
  cases h
  exact .refl c

theorem gathers_pending : Gathers pending := by
  intro c a d h
  cases h
  exact .refl c

theorem gathers_looksAt (classes : List (Char → Bool)) : Gathers (looksAt classes) := by
  intro c a d h
  cases h
  exact .refl c

theorem gathers_accept (classes : List (Char → Bool)) : Gathers (accept classes) := by
  intro c a d h
  rw [accept_apply] at h
  cases h
  split
  · exact c.ahead_advance classes.length
  · exact .refl c

theorem gathers_skipWhile (inClass : Char → Bool) : Gathers (skipWhile inClass) := by
  intro c a d h
  cases h
  exact c.ahead_advance _

/-- A step that ends the token in progress, well shaped if what is pending starts as `kind` demands. -/
def Finishes (kind : Kind) (step : Scan Token) : Prop :=
  ∀ c token d, kind.starts c.pending.reverse = true → step c = .ok token d →
    token.Shaped ∧ d.pending = []

theorem finishes_emitAs (kind : Kind) : Finishes kind (emitAs kind) := by
  intro c token d hc h
  cases h
  refine ⟨?_, rfl⟩
  simpa only [Shaped, Cursor.pendingText, String.toList_ofList] using hc

theorem finishes_fail (kind : Kind) (cause : Malformed) {next : α → Scan Token} :
    Finishes kind (fail cause >>= next) := by
  intro c token d hc h
  cases h

/-- Reading on does not change how a token starts. -/
theorem Gathers.finishes {kind : Kind} {step : Scan α} {next : α → Scan Token}
    (h : Gathers step) (h' : ∀ a, Finishes kind (next a)) : Finishes kind (step >>= next) := by
  intro c token e hc he
  obtain ⟨a, d, hd, he⟩ := bind_ok he
  obtain ⟨text, -, hp, -⟩ := h c a d hd
  refine h' a d token e ?_ he
  rw [hp, List.reverse_append, List.reverse_reverse]
  exact Kind.starts_append hc text

/-- A step that gives a well-shaped token and leaves nothing pending. -/
def Emits (step : Scan Token) (c : Cursor) : Prop :=
  ∀ token d, step c = .ok token d → token.Shaped ∧ d.pending = []

/-- A token starts with the characters that are read first. -/
theorem Finishes.emits (kind : Kind) {step : Scan α} {next : α → Scan Token} {c : Cursor} {a : α}
    {count : Nat} (hs : step c = .ok a (c.advance count)) (hp : c.pending = [])
    (hk : kind.starts (c.rest.take count) = true) (h : Finishes kind (next a)) :
    Emits (step >>= next) c := by
  intro token e he
  obtain ⟨b, d, hd, he⟩ := bind_ok he
  rw [hs] at hd
  cases hd
  refine h _ token e ?_ he
  simpa [Cursor.advance, hp] using hk

theorem Emits.after {step : Scan α} {next : α → Scan Token} {c d : Cursor} {a : α}
    (hs : step c = .ok a d) (h : Emits (next a) d) : Emits (step >>= next) c := by
  intro token e he
  obtain ⟨b, d, hd, he⟩ := bind_ok he
  rw [hs] at hd
  cases hd
  exact h token e he

theorem discard_ok {step : Scan α} {c d : Cursor} {a : α} (h : step c = .ok a d) :
    (discard step : Scan Unit) c = .ok () d := by
  simp [discard, Functor.discard, Functor.mapConst, EStateM.map, h]

end Scan

open Scan

theorem gathers_lexExponent : Gathers lexExponent := by
  unfold lexExponent
  refine (gathers_accept _).bind fun marked => ?_
  split
  · refine ((gathers_accept _).bind fun _ => .pure _).bind fun _ => ?_
    refine (gathers_accept _).bind fun found => ?_
    split
    · exact gathers_skipWhile _
    · exact gathers_pending.bind fun _ => gathers_fail _
  · exact .pure _

theorem gathers_lexEscape : Gathers lexEscape := by
  unfold lexEscape
  refine (gathers_accept _).bind fun found => ?_
  split
  · exact .pure _
  · exact gathers_get.bind fun _ => gathers_fail _

theorem gathers_lexCharacterBody : Gathers lexCharacterBody := by
  unfold lexCharacterBody
  refine (gathers_accept _).bind fun backslash => ?_
  split
  · exact gathers_lexEscape
  · refine (gathers_accept _).bind fun found => ?_
    split
    · exact .pure _
    · refine gathers_pending.bind fun _ => (gathers_looksAt _).bind fun other => ?_
      split <;> exact gathers_fail _

theorem gathers_lexStringBody (room : Nat) : Gathers (lexStringBody room) := by
  induction room with
  | zero => exact .pure _
  | succ room ih =>
      unfold lexStringBody
      refine (gathers_accept _).bind fun backslash => ?_
      split
      · exact gathers_lexEscape.bind fun _ => ih
      · refine (gathers_accept _).bind fun plain => ?_
        split
        · exact ih
        · exact .pure _

theorem emits_lexIdentifier {c : Cursor} (hp : c.pending = [])
    (hc : c.looksAt [isNameStart] = true) : Emits lexIdentifier c := by
  refine Finishes.emits .identifier (discard_ok (accept_of_looksAt hc)) hp ?_ ?_
  · exact startsIn_take hc (Nat.le_refl _)
  · exact (gathers_skipWhile _).finishes fun _ => finishes_emitAs _

theorem emits_lexCharacter {c : Cursor} (hp : c.pending = [])
    (hc : c.looksAt [only '\''] = true) : Emits lexCharacter c := by
  refine Finishes.emits .character (discard_ok (accept_of_looksAt hc)) hp ?_ ?_
  · exact startsIn_take hc (Nat.le_refl _)
  · refine gathers_lexCharacterBody.finishes fun _ => (gathers_accept _).finishes fun closed => ?_
    split
    · exact finishes_emitAs _
    · exact gathers_pending.finishes fun _ => finishes_fail _ _

theorem emits_lexString {c : Cursor} (hp : c.pending = [])
    (hc : c.looksAt [only '"'] = true) : Emits lexString c := by
  refine Finishes.emits .string (discard_ok (accept_of_looksAt hc)) hp ?_ ?_
  · exact startsIn_take hc (Nat.le_refl _)
  · refine gathers_get.finishes fun _ => (gathers_lexStringBody _).finishes fun _ => ?_
    refine (gathers_accept _).finishes fun closed => ?_
    split
    · exact finishes_emitAs _
    · exact gathers_pending.finishes fun _ => finishes_fail _ _

theorem startsIn_one {inClass : Char → Bool} {text : List Char}
    (h : startsIn [inClass] text = true) : ∃ c rest, text = c :: rest ∧ inClass c = true := by
  cases text with
  | nil => cases h
  | cons c rest => exact ⟨c, rest, rfl, by simpa [startsIn] using h⟩

theorem startsIn_two {inClass inNext : Char → Bool} {text : List Char}
    (h : startsIn [inClass, inNext] text = true) :
    ∃ c d rest, text = c :: d :: rest ∧ inClass c = true ∧ inNext d = true := by
  cases text with
  | nil => cases h
  | cons c text =>
      simp only [startsIn, Bool.and_eq_true] at h
      obtain ⟨d, rest, rfl, hd⟩ := startsIn_one h.2
      exact ⟨c, d, rest, rfl, h.1, hd⟩

theorem isSymbol_of_isRelation {c : Char} (h : isRelation c = true) : isSymbol c = true := by
  simp only [isRelation, Bool.or_eq_true, decide_eq_true_eq] at h
  rcases h with ((rfl | rfl) | rfl) | rfl <;> decide

theorem emits_lexOperator {c : Cursor} (hp : c.pending = []) : Emits lexOperator c := by
  unfold lexOperator
  cases hr : c.looksAt [isRelation] with
  | true =>
      refine Finishes.emits .operator (accept_of_looksAt hr) hp ?_ ?_
      · obtain ⟨first, rest, ht, hf⟩ := startsIn_one hr
        simp [Kind.starts, startsIn, ht, isSymbol_of_isRelation hf]
      · refine Gathers.finishes ?_ fun _ => finishes_emitAs _
        exact (gathers_accept _).bind fun _ => .pure _
  | false =>
      refine Emits.after (accept_of_not_looksAt hr) ?_
      cases hs : c.looksAt [isSymbol] with
      | true =>
          refine Finishes.emits .operator (accept_of_looksAt hs) hp ?_ ?_
          · exact startsIn_take hs (Nat.le_refl _)
          · exact finishes_emitAs _
      | false =>
          refine Emits.after (accept_of_not_looksAt hs) ?_
          refine Emits.after (a := c) rfl ?_
          split <;>
            · intro token d hd
              cases hd

theorem not_isSign_of_isDigit {c : Char} (h : isDigit c = true) : isSign c = false := by
  simp only [isDigit, Bool.and_eq_true, decide_eq_true_eq] at h
  have hplus : c ≠ '+' := by rintro rfl; exact absurd h (by decide)
  have hminus : c ≠ '-' := by rintro rfl; exact absurd h (by decide)
  simp [isSign, hplus, hminus]

theorem Cursor.pending_skipWhile (c : Cursor) (inClass : Char → Bool) :
    (c.skipWhile inClass).pending = (c.rest.takeWhile inClass).reverse ++ c.pending := by
  have h : c.rest.take (c.rest.takeWhile inClass).length = c.rest.takeWhile inClass :=
    (List.prefix_iff_eq_take.mp (List.takeWhile_prefix inClass)).symm
  simp only [skipWhile, advance, h]

/-- The digits at the start of a number, behind its sign if it has one. -/
theorem starts_digits {c d e : Cursor} (hp : c.pending = [])
    (hc : (c.looksAt [isSign, isDigit] || c.looksAt [isDigit]) = true)
    (hd : (discard (accept [isSign]) : Scan Unit) c = .ok () d)
    (he : skipWhile isDigit d = .ok () e) : Kind.integer.starts e.pending.reverse = true := by
  cases he
  rw [Cursor.pending_skipWhile]
  rcases Bool.or_eq_true _ _ ▸ hc with hc | hc
  · obtain ⟨sign, digit, rest, hr, hs, hdigit⟩ := startsIn_two hc
    have hsign : c.looksAt [isSign] = true := by
      simp [Cursor.looksAt, hr, startsIn, hs]
    rw [discard_ok (accept_of_looksAt hsign)] at hd
    cases hd
    simp [Cursor.advance, hr, hs, hdigit, hp, Kind.starts, startsIn]
  · obtain ⟨digit, rest, hr, hs⟩ := startsIn_one hc
    have hsign : c.looksAt [isSign] = false := by
      simp [Cursor.looksAt, hr, startsIn, not_isSign_of_isDigit hs]
    rw [discard_ok (accept_of_not_looksAt hsign)] at hd
    cases hd
    simp [hr, hs, hp, Kind.starts, startsIn]

theorem emits_lexNumber {c : Cursor} (hp : c.pending = [])
    (hc : (c.looksAt [isSign, isDigit] || c.looksAt [isDigit]) = true) :
    Emits lexNumber c := by
  have htail : Finishes .integer (do
      let fraction ← accept [only '.', isDigit]
      if fraction then
        skipWhile isDigit
      lexExponent
      emitAs (if fraction then .decimal else .integer)) := by
    refine (gathers_accept _).finishes fun fraction => ?_
    cases fraction with
    | true =>
        refine (gathers_skipWhile _).finishes fun _ => gathers_lexExponent.finishes fun _ => ?_
        exact finishes_emitAs .decimal
    | false => exact gathers_lexExponent.finishes fun _ => finishes_emitAs .integer
  intro token e he
  obtain ⟨_, _, h, he⟩ := bind_ok he
  obtain ⟨_, d, h', he⟩ := bind_ok he
  exact htail d token e (starts_digits hp hc h h') he

theorem emits_lexToken {c : Cursor} (hp : c.pending = []) : Emits lexToken c := by
  refine Emits.after (a := c) rfl ?_
  split
  · exact emits_lexIdentifier hp ‹_›
  · split
    · exact emits_lexNumber hp ‹_›
    · split
      · exact emits_lexCharacter hp ‹_›
      · split
        · exact emits_lexString hp ‹_›
        · exact emits_lexOperator hp

theorem lexSpace_apply (c : Cursor) : lexSpace c = .ok () (c.skipWhile isSpace).clear :=
  rfl

theorem lexComment_apply {c : Cursor} (hc : c.looksAt [only '/', only '/'] = true) :
    lexComment c = .ok () ((c.advance 2).skipWhile (· ≠ '\n')).clear := by
  simp only [lexComment, bind, EStateM.bind]
  rw [discard_ok (accept_of_looksAt hc)]
  rfl

/-- Every token of a run of the lexer is well shaped, if the run starts between two tokens. -/
theorem shaped_of_mem_lexLoop {room : Nat} {c : Cursor} (hp : c.pending = []) :
    ∀ token ∈ (lexLoop room c).tokens, token.Shaped := by
  induction room generalizing c with
  | zero =>
      intro token h
      cases h
  | succ room ih =>
      intro token h
      unfold lexLoop at h
      split at h
      · cases h
      · split at h
        · rw [lexSpace_apply] at h
          exact ih rfl token h
        · split at h
          · next hc =>
            rw [lexComment_apply hc] at h
            exact ih rfl token h
          · split at h
            · next t next ht =>
              obtain ⟨hshape, hnext⟩ := emits_lexToken hp t next ht
              rcases List.mem_cons.mp h with rfl | h
              · exact hshape
              · exact ih hnext token h
            · cases h

/-- Tokens read from a source are well shaped. -/
theorem Emitted.shaped {token : Token} (h : token.Emitted) : token.Shaped := by
  obtain ⟨source, h⟩ := h
  exact shaped_of_mem_lexLoop rfl token h

end ProtoScript.Token
