import ProtoScript.Proofs.Token.Grammar

/-!
# The lexer follows each rule of the token grammar

How the lexer runs forward on a text that a rule of the grammar describes, and where it fails if there
is none. Every part of a token is read until the next character does not go on with it, so each rule
needs to know only that what follows does not go on with its last part.
-/

namespace ProtoScript.Token

/-- The cursor between two tokens. -/
def Cursor.between (index : Nat) (rest : List Char) : Cursor :=
  { index, rest }

/-- The cursor that has read `text` of the token that starts at `index`. -/
def Cursor.inside (index : Nat) (text rest : List Char) : Cursor :=
  { index := index + text.length, pending := text.reverse, rest }

/-- A mistake inside a number or a quoted literal. -/
def Malformed.OfLiteral : Malformed → Prop
  | .exponent _ | .character _ | .openCharacter _ | .openString _ | .escape _ => True
  | .symbol _ | .sourceEnd => False

namespace Scan
variable {α β : Type} {index : Nat} {text rest : List Char}

/-- The step goes from one cursor to another, with a result. -/
def Steps (step : Scan α) (c : Cursor) (a : α) (d : Cursor) : Prop :=
  step c = .ok a d

/-- The step fails at a literal of `source` that starts at `index`. -/
def Breaks (index : Nat) (source : List Char) (step : Scan α) (c : Cursor) : Prop :=
  ∃ error d, step c = .error error d ∧ error.cause.OfLiteral ∧ index ≤ error.offset ∧
    error.offset ≤ index + source.length

theorem Steps.bind_apply {step : Scan α} {c d : Cursor} {a : α} (h : Steps step c a d)
    (next : α → Scan β) : (step >>= next) c = next a d := by
  rw [Steps] at h
  simp only [Bind.bind, EStateM.bind, h]

theorem Steps.bind {step : Scan α} {next : α → Scan β} {c d e : Cursor} {a : α} {b : β}
    (h : Steps step c a d) (h' : Steps (next a) d b e) : Steps (step >>= next) c b e :=
  (h.bind_apply next).trans h'

theorem Steps.discard {step : Scan α} {c d : Cursor} {a : α} (h : Steps step c a d) :
    Steps (Functor.discard step) c () d :=
  discard_ok h

theorem Breaks.after {source : List Char} {step : Scan α} {next : α → Scan β} {c d : Cursor} {a : α}
    (h : Steps step c a d) (h' : Breaks index source (next a) d) :
    Breaks index source (step >>= next) c := by
  rw [Breaks, h.bind_apply]
  exact h'

theorem Breaks.bind {source : List Char} {step : Scan α} {c : Cursor}
    (h : Breaks index source step c) (next : α → Scan β) :
    Breaks index source (step >>= next) c := by
  obtain ⟨error, d, hs, hrest⟩ := h
  refine ⟨error, d, ?_, hrest⟩
  simp only [Bind.bind, EStateM.bind, hs]

/-- A failure inside a token is noticed no later than at the end of the source. -/
theorem breaks_fail {source : List Char} {cause : Malformed} (hs : source = text ++ rest)
    (hc : cause.OfLiteral) :
    Breaks index source (fail cause : Scan α) (.inside index text rest) := by
  refine ⟨⟨cause, index + text.length⟩, .inside index text rest, rfl, hc, ?_, ?_⟩
  · exact Nat.le_add_right _ _
  · simp only [hs, List.length_append]
    omega

theorem steps_get (c : Cursor) : Steps get c c c :=
  rfl

theorem steps_pending : Steps pending (.inside index text rest) (String.ofList text)
    (.inside index text rest) := by
  change EStateM.Result.ok (String.ofList text.reverse.reverse) _ = _
  rw [List.reverse_reverse]

theorem steps_emitAs (kind : Kind) :
    Steps (emitAs kind) (.inside index text rest) ⟨kind, String.ofList text⟩
      (.between (index + text.length) rest) := by
  change EStateM.Result.ok (Token.mk kind (String.ofList text.reverse.reverse)) _ = _
  rw [List.reverse_reverse]
  rfl

theorem steps_accept {inClass : Char → Bool} {c : Char} (h : inClass c = true) :
    Steps (accept [inClass]) (.inside index text (c :: rest)) true
      (.inside index (text ++ [c]) rest) := by
  rw [Steps, accept_of_looksAt (by simpa [Cursor.looksAt, Cursor.inside, startsIn] using h)]
  simp [Cursor.advance, Cursor.inside, Nat.add_assoc]

theorem steps_acceptTwo {inClass inNext : Char → Bool} {c d : Char} (hc : inClass c = true)
    (hd : inNext d = true) :
    Steps (accept [inClass, inNext]) (.inside index text (c :: d :: rest)) true
      (.inside index (text ++ [c, d]) rest) := by
  rw [Steps, accept_of_looksAt (by simp [Cursor.looksAt, Cursor.inside, startsIn, hc, hd])]
  simp [Cursor.advance, Cursor.inside, Nat.add_assoc]

theorem steps_refuse {classes : List (Char → Bool)} (h : startsIn classes rest = false) :
    Steps (accept classes) (.inside index text rest) false (.inside index text rest) :=
  accept_of_not_looksAt h

theorem takeWhile_eq_nil {inClass : Char → Bool} (h : startsIn [inClass] rest = false) :
    rest.takeWhile inClass = [] := by
  cases rest with
  | nil => rfl
  | cons c rest =>
      have hc : inClass c = false := by simpa [startsIn] using h
      simp [hc]

theorem steps_skipWhile {inClass : Char → Bool} {run : List Char}
    (hr : ∀ c ∈ run, inClass c = true) (hn : startsIn [inClass] rest = false) :
    Steps (skipWhile inClass) (.inside index text (run ++ rest)) ()
      (.inside index (text ++ run) rest) := by
  have htake : (run ++ rest).takeWhile inClass = run := by
    rw [List.takeWhile_append_of_pos hr, takeWhile_eq_nil hn, List.append_nil]
  change EStateM.Result.ok () (Cursor.skipWhile _ _) = _
  simp [Cursor.skipWhile, Cursor.advance, Cursor.inside, htake, Nat.add_assoc]

end Scan

open Scan

section Rules
variable {index : Nat} {text rest : List Char}

theorem steps_lexSpace {gap : List Char} (hg : ∀ c ∈ gap, isSpace c = true)
    (hr : startsIn [isSpace] rest = false) :
    Steps lexSpace (.between index (gap ++ rest)) () (.between (index + gap.length) rest) := by
  have hskip : Steps (skipWhile isSpace) (.inside index [] (gap ++ rest)) ()
      (.inside index gap rest) := steps_skipWhile hg hr
  exact hskip.bind rfl

theorem steps_lexComment (ht : '\n' ∉ text) (hr : rest = [] ∨ rest.head? = some '\n') :
    Steps lexComment (.between index ('/' :: '/' :: (text ++ rest))) ()
      (.between (index + ('/' :: '/' :: text).length) rest) := by
  have hslashes : Steps (accept [only '/', only '/'])
      (.inside index [] ('/' :: '/' :: (text ++ rest))) true (.inside index ['/', '/'] (text ++ rest)) :=
    steps_acceptTwo rfl rfl
  have hline : ∀ c ∈ text, decide (c ≠ '\n') = true :=
    fun c hc => decide_eq_true fun h => ht (h ▸ hc)
  have hend : startsIn [fun c => decide (c ≠ '\n')] rest = false := by
    rcases hr with rfl | hr
    · rfl
    · cases rest with
      | nil => rfl
      | cons c rest => simp_all [startsIn]
  apply Steps.bind hslashes.discard
  apply Steps.bind (steps_skipWhile hline hend)
  rfl

theorem steps_lexIdentifier {c : Char} (hc : isNameStart c = true)
    (ht : ∀ d ∈ text, isNamePart d = true) (hr : startsIn [isNamePart] rest = false) :
    Steps lexIdentifier (.between index (c :: (text ++ rest)))
      ⟨.identifier, String.ofList (c :: text)⟩ (.between (index + (c :: text).length) rest) := by
  have hfirst : Steps (accept [isNameStart]) (.inside index [] (c :: (text ++ rest))) true
      (.inside index [c] (text ++ rest)) := steps_accept hc
  apply Steps.bind hfirst.discard
  apply Steps.bind (steps_skipWhile ht hr)
  exact steps_emitAs .identifier

theorem steps_sign {sign : List Char} (hs : Sign sign) (hr : startsIn [isSign] rest = false) :
    Steps (discard (accept [isSign])) (.inside index text (sign ++ rest)) ()
      (.inside index (text ++ sign) rest) := by
  cases hs with
  | absent =>
      rw [List.append_nil]
      exact (steps_refuse hr).discard
  | present h => exact (steps_accept h).discard

theorem Digits.single {d : Char} (hd : isDigit d = true) : Digits [d] :=
  ⟨by simp, by simpa using hd⟩

/-- Digits do not start with a sign. -/
theorem Digits.not_startsIn_sign {digits : List Char} (h : Digits digits) (rest : List Char) :
    startsIn [isSign] (digits ++ rest) = false := by
  cases digits with
  | nil => exact absurd rfl h.nonempty
  | cons d digits => simp [startsIn, not_isSign_of_isDigit (h.all d List.mem_cons_self)]

theorem steps_fraction {fraction : Bool} {behind : List Char} (hf : Fraction fraction behind)
    (hd : startsIn [isDigit] rest = false)
    (hp : fraction = false → startsIn [only '.', isDigit] rest = false) (next : Bool → Scan Token) :
    (accept [only '.', isDigit] >>= fun found => do
      if found then
        skipWhile isDigit
      next found) (.inside index text (behind ++ rest)) =
      next fraction (.inside index (text ++ behind) rest) := by
  cases hf with
  | absent =>
      rw [List.nil_append, List.append_nil, (steps_refuse (hp rfl)).bind_apply]
      rfl
  | @present digits h =>
      cases digits with
      | nil => exact absurd rfl h.nonempty
      | cons d digits =>
          have hpoint : only '.' '.' = true := rfl
          have hdigit : isDigit d = true := h.all d List.mem_cons_self
          have hmore : ∀ c ∈ digits, isDigit c = true := fun c hc => h.all c (List.mem_cons_of_mem d hc)
          rw [List.cons_append, List.cons_append, (steps_acceptTwo hpoint hdigit).bind_apply]
          simp only [if_true]
          rw [(steps_skipWhile hmore hd).bind_apply, List.append_assoc]
          rfl

/-- Reading a number comes to its exponent, if what follows does not go on with its digits. -/
theorem lexNumber_apply {sign whole behind : List Char} {fraction : Bool} (hs : Sign sign)
    (hw : Digits whole) (hf : Fraction fraction behind) (hd : startsIn [isDigit] rest = false)
    (hp : fraction = false → startsIn [only '.', isDigit] rest = false) :
    lexNumber (.between index (sign ++ (whole ++ (behind ++ rest)))) =
      (do
        lexExponent
        emitAs (if fraction then .decimal else .integer))
        (.inside index (sign ++ (whole ++ behind)) rest) := by
  have htail : startsIn [isDigit] (behind ++ rest) = false := by
    cases hf with
    | absent => exact hd
    | present h => rfl
  have hsign : Steps (discard (accept [isSign]))
      (.inside index [] (sign ++ (whole ++ (behind ++ rest)))) ()
      (.inside index sign (whole ++ (behind ++ rest))) :=
    steps_sign hs (hw.not_startsIn_sign _)
  refine (hsign.bind_apply _).trans ?_
  rw [(steps_skipWhile hw.all htail).bind_apply, steps_fraction hf hd hp, List.append_assoc]

theorem steps_lexExponent {power : List Char} (he : Exponent true power)
    (hd : startsIn [isDigit] rest = false) :
    Steps lexExponent (.inside index text (power ++ rest)) () (.inside index (text ++ power) rest) := by
  cases he with
  | @present mark sign digits hm hs h =>
      have hsign := @steps_sign index (text ++ [mark]) _ sign hs (h.not_startsIn_sign rest)
      cases digits with
      | nil => exact absurd rfl h.nonempty
      | cons d digits =>
          have hmore : ∀ c ∈ digits, isDigit c = true := fun c hc => h.all c (List.mem_cons_of_mem d hc)
          have hrun := @steps_skipWhile index (text ++ [mark] ++ sign ++ [d]) rest _ _ hmore hd
          simp only [List.cons_append, List.append_assoc, List.nil_append] at hrun hsign ⊢
          apply Steps.bind (steps_accept hm)
          apply Steps.bind hsign
          apply Steps.bind (steps_accept (h.all d List.mem_cons_self))
          simpa using hrun

theorem steps_lexExponent_absent (hm : startsIn [isExponentMark] rest = false) :
    Steps lexExponent (.inside index text rest) () (.inside index text rest) :=
  (steps_refuse hm).bind rfl

theorem not_isDigit_of_isExponentMark {c : Char} (h : isExponentMark c = true) :
    isDigit c = false ∧ c ≠ '.' := by
  simp only [isExponentMark, Bool.or_eq_true, decide_eq_true_eq] at h
  rcases h with rfl | rfl <;> decide

/-- A number is read, if what follows does not go on with it. -/
theorem steps_lexNumber {fraction exponent : Bool} (h : Number fraction exponent text)
    (hd : startsIn [isDigit] rest = false)
    (hp : fraction = false → exponent = false → startsIn [only '.', isDigit] rest = false)
    (hm : exponent = false → startsIn [isExponentMark] rest = false) :
    Steps lexNumber (.between index (text ++ rest))
      ⟨if fraction then .decimal else .integer, String.ofList text⟩
      (.between (index + text.length) rest) := by
  obtain ⟨hs, hw, hf, he⟩ := h
  simp only [List.append_assoc]
  cases exponent with
  | false =>
      cases he
      rw [List.nil_append, List.append_nil, Steps, lexNumber_apply hs hw hf hd fun h => hp h rfl]
      exact (steps_lexExponent_absent (hm rfl)).bind (steps_emitAs _)
  | true =>
      have hexp := he
      cases he with
      | @present mark sign' digits hmark hs' hds =>
          obtain ⟨hdigit, hpoint⟩ := not_isDigit_of_isExponentMark hmark
          have hd' : startsIn [isDigit] (mark :: (sign' ++ digits) ++ rest) = false := by
            simp [startsIn, hdigit]
          have hp' : startsIn [only '.', isDigit] (mark :: (sign' ++ digits) ++ rest) = false := by
            simp [startsIn, only, hpoint]
          rw [Steps, lexNumber_apply hs hw hf hd' fun _ => hp']
          refine (steps_lexExponent hexp hd).bind ?_
          simpa only [List.append_assoc] using @steps_emitAs index _ rest _

theorem breaks_lexExponent {mark : Char} {more : List Char} (hm : isExponentMark mark = true)
    (hn : ∀ power, power <+: mark :: more → ¬Exponent true power) :
    Breaks index (text ++ mark :: more) lexExponent (.inside index text (mark :: more)) := by
  -- The sign is taken if it is there, and no digit comes behind it.
  have hsign : ∃ sign tail, more = sign ++ tail ∧ Sign sign ∧
      Steps (discard (accept [isSign])) (.inside index (text ++ [mark]) more) ()
        (.inside index (text ++ [mark] ++ sign) tail) := by
    cases hstart : startsIn [isSign] more with
    | false => exact ⟨[], more, rfl, .absent, by simpa using (steps_refuse hstart).discard⟩
    | true =>
        obtain ⟨sign, tail, rfl, h⟩ := startsIn_one hstart
        exact ⟨[sign], tail, rfl, .present h, (steps_accept h).discard⟩
  obtain ⟨sign, tail, rfl, hs, hstep⟩ := hsign
  have hdigit : startsIn [isDigit] tail = false := by
    cases hstart : startsIn [isDigit] tail with
    | false => rfl
    | true =>
        obtain ⟨d, tail, rfl, hd⟩ := startsIn_one hstart
        exact absurd (.present hm hs (.single hd)) (hn (mark :: (sign ++ [d])) ⟨tail, by simp⟩)
  apply Breaks.after (steps_accept hm)
  apply Breaks.after hstep
  apply Breaks.after (steps_refuse hdigit)
  apply Breaks.after steps_pending
  exact breaks_fail (by simp) trivial

/-- A number fails if it is followed by the mark of an exponent that is not there. -/
theorem breaks_lexNumber {fraction : Bool} {mark : Char} {more : List Char}
    (h : Number fraction false text) (hm : isExponentMark mark = true)
    (hn : ∀ power, power <+: mark :: more → ¬Exponent true power) :
    Breaks index (text ++ mark :: more) lexNumber (.between index (text ++ mark :: more)) := by
  obtain @⟨sign, whole, behind, _, hs, hw, hf, he⟩ := h
  cases he
  obtain ⟨hdigit, hpoint⟩ := not_isDigit_of_isExponentMark hm
  have hd : startsIn [isDigit] (mark :: more) = false := by simp [startsIn, hdigit]
  have hp : startsIn [only '.', isDigit] (mark :: more) = false := by simp [startsIn, only, hpoint]
  have hexponent := @breaks_lexExponent index (sign ++ (whole ++ behind)) mark more hm hn
  simp only [List.append_nil, List.append_assoc] at hexponent ⊢
  rw [Breaks, lexNumber_apply hs hw hf hd fun _ => hp]
  exact hexponent.bind _

theorem steps_lexEscape {c : Char} (h : isEscapable c = true) :
    Steps lexEscape (.inside index text (c :: rest)) () (.inside index (text ++ [c]) rest) :=
  (steps_accept h).bind rfl

theorem breaks_lexEscape (h : startsIn [isEscapable] rest = false) :
    Breaks index (text ++ rest) lexEscape (.inside index text rest) := by
  apply Breaks.after (steps_refuse h)
  apply Breaks.after (steps_get _)
  exact breaks_fail rfl trivial

theorem not_isBackslash_of_isPlain {quote c : Char} (h : isPlain quote c = true) :
    only '\\' c = false := by
  simp only [isPlain, Bool.not_eq_true', Bool.or_eq_false_iff] at h
  simpa [only] using h.2

theorem steps_lexCharacterBody {body : List Char} (h : Piece '\'' body) :
    Steps lexCharacterBody (.inside index text (body ++ rest)) ()
      (.inside index (text ++ body) rest) := by
  cases h with
  | @plain c h =>
      have hback : startsIn [only '\\'] (c :: rest) = false := by
        simp [startsIn, not_isBackslash_of_isPlain h]
      apply Steps.bind (steps_refuse hback)
      exact (steps_accept h).bind rfl
  | @escape c h =>
      apply Steps.bind (steps_accept (c := '\\') rfl)
      simpa using @steps_lexEscape index (text ++ ['\\']) rest c h

theorem steps_lexCharacter {body : List Char} (h : Piece '\'' body) :
    Steps lexCharacter (.between index ('\'' :: (body ++ '\'' :: rest)))
      ⟨.character, String.ofList ('\'' :: (body ++ ['\'']))⟩
      (.between (index + ('\'' :: (body ++ ['\''])).length) rest) := by
  have hopen : Steps (accept [only '\'']) (.inside index [] ('\'' :: (body ++ '\'' :: rest))) true
      (.inside index ['\''] (body ++ '\'' :: rest)) := steps_accept rfl
  apply Steps.bind hopen.discard
  apply Steps.bind (steps_lexCharacterBody h)
  apply Steps.bind (steps_accept (c := '\'') rfl)
  exact steps_emitAs .character

/-- The character behind the first quote is there, or reading fails. -/
theorem lexCharacterBody_cases (index : Nat) (text s : List Char) :
    (∃ body tail, s = body ++ tail ∧ Piece '\'' body) ∨
      Breaks index (text ++ s) lexCharacterBody (.inside index text s) := by
  cases hback : startsIn [only '\\'] s with
  | true =>
      obtain ⟨c, s, rfl, hc⟩ := startsIn_one hback
      obtain rfl : c = '\\' := by simpa [only] using hc
      cases hescape : startsIn [isEscapable] s with
      | true =>
          obtain ⟨d, tail, rfl, hd⟩ := startsIn_one hescape
          exact .inl ⟨['\\', d], tail, rfl, .escape hd⟩
      | false =>
          refine .inr (Breaks.after (steps_accept (c := '\\') rfl) ?_)
          simpa using @breaks_lexEscape index (text ++ ['\\']) s hescape
  | false =>
      cases hplain : startsIn [isPlain '\''] s with
      | true =>
          obtain ⟨c, tail, rfl, hc⟩ := startsIn_one hplain
          exact .inl ⟨[c], tail, rfl, .plain hc⟩
      | false =>
          refine .inr (Breaks.after (steps_refuse hback) (Breaks.after (steps_refuse hplain) ?_))
          apply Breaks.after steps_pending
          refine Breaks.after (a := (Cursor.inside index text s).looksAt _) rfl ?_
          split <;> exact breaks_fail rfl trivial

/-- A character literal is there, or reading fails. -/
theorem lexCharacter_cases (index : Nat) (s : List Char) :
    (∃ body tail, s = body ++ '\'' :: tail ∧ Piece '\'' body) ∨
      Breaks index ('\'' :: s) lexCharacter (.between index ('\'' :: s)) := by
  have hopen : Steps (accept [only '\'']) (.inside index [] ('\'' :: s)) true
      (.inside index ['\''] s) := steps_accept rfl
  rcases lexCharacterBody_cases index ['\''] s with ⟨body, tail, rfl, h⟩ | h
  · cases hclose : startsIn [only '\''] tail with
    | true =>
        obtain ⟨c, tail, rfl, hc⟩ := startsIn_one hclose
        obtain rfl : c = '\'' := by simpa [only] using hc
        exact .inl ⟨body, tail, rfl, h⟩
    | false =>
        refine .inr (Breaks.after hopen.discard (Breaks.after (steps_lexCharacterBody h) ?_))
        apply Breaks.after (steps_refuse hclose)
        apply Breaks.after steps_pending
        refine Breaks.bind ?_ _
        exact breaks_fail (by simp) trivial
  · exact .inr (Breaks.after hopen.discard (h.bind _))

theorem steps_lexStringBody {body : List Char} (h : Pieces '"' body) {room : Nat}
    (hr : body.length ≤ room) :
    Steps (lexStringBody room) (.inside index text (body ++ '"' :: rest)) ()
      (.inside index (text ++ body) ('"' :: rest)) := by
  induction h generalizing room text with
  | none =>
      rw [List.append_nil]
      cases room with
      | zero => rfl
      | succ room => exact (steps_refuse rfl).bind ((steps_refuse rfl).bind rfl)
  | @more first tail hf _ ih =>
      obtain ⟨room, rfl⟩ : ∃ n, room = n + 1 := by
        refine ⟨room - 1, ?_⟩
        cases hf <;> simp only [List.length_append, List.length_cons, List.length_nil] at hr <;> omega
      have hlater : tail.length ≤ room := by
        cases hf <;> simp only [List.length_append, List.length_cons, List.length_nil] at hr <;> omega
      rw [List.append_assoc, ← List.append_assoc text]
      cases hf with
      | @plain c h =>
          have hback : startsIn [only '\\'] (c :: (tail ++ '"' :: rest)) = false := by
            simp [startsIn, not_isBackslash_of_isPlain h]
          exact (steps_refuse hback).bind ((steps_accept h).bind (ih hlater))
      | @escape c h =>
          refine (steps_accept (c := '\\') rfl).bind ?_
          refine (steps_lexEscape h).bind ?_
          simpa using @ih (text ++ ['\\', c]) room hlater

theorem steps_lexString {body : List Char} (h : Pieces '"' body) :
    Steps lexString (.between index ('"' :: (body ++ '"' :: rest)))
      ⟨.string, String.ofList ('"' :: (body ++ ['"']))⟩
      (.between (index + ('"' :: (body ++ ['"'])).length) rest) := by
  have hopen : Steps (accept [only '"']) (.inside index [] ('"' :: (body ++ '"' :: rest))) true
      (.inside index ['"'] (body ++ '"' :: rest)) := steps_accept rfl
  have hbody : Steps (lexStringBody (body ++ '"' :: rest).length)
      (.inside index ['"'] (body ++ '"' :: rest)) () (.inside index (['"'] ++ body) ('"' :: rest)) :=
    steps_lexStringBody h (by simp)
  apply Steps.bind hopen.discard
  apply Steps.bind (steps_get _)
  apply Steps.bind hbody
  apply Steps.bind (steps_accept (c := '"') rfl)
  exact steps_emitAs .string

/-- Pieces are read up to a character that starts none, or reading fails at an escape. -/
theorem lexStringBody_cases (index : Nat) (text : List Char) (room : Nat) (s : List Char)
    (hr : s.length ≤ room) :
    (∃ body tail, s = body ++ tail ∧ Pieces '"' body ∧
      Steps (lexStringBody room) (.inside index text s) () (.inside index (text ++ body) tail)) ∨
      Breaks index (text ++ s) (lexStringBody room) (.inside index text s) := by
  induction room generalizing s text with
  | zero => exact .inl ⟨[], s, rfl, .none, by rw [List.append_nil]; rfl⟩
  | succ room ih =>
      cases hback : startsIn [only '\\'] s with
      | true =>
          obtain ⟨c, s, rfl, hc⟩ := startsIn_one hback
          obtain rfl : c = '\\' := by simpa [only] using hc
          cases hescape : startsIn [isEscapable] s with
          | true =>
              obtain ⟨d, s, rfl, hd⟩ := startsIn_one hescape
              have hsteps := @steps_lexEscape index (text ++ ['\\']) s d hd
              rcases ih (text ++ ['\\'] ++ [d]) s (by simp at hr; omega) with
                ⟨body, tail, rfl, hb, hstep⟩ | hbreak
              · refine .inl ⟨['\\', d] ++ body, tail, rfl, .more (.escape hd) hb, ?_⟩
                refine (steps_accept (c := '\\') rfl).bind (hsteps.bind ?_)
                simpa using hstep
              · refine .inr (Breaks.after (steps_accept (c := '\\') rfl) (Breaks.after hsteps ?_))
                simpa using hbreak
          | false =>
              refine .inr (Breaks.after (steps_accept (c := '\\') rfl) ?_)
              simpa using (@breaks_lexEscape index (text ++ ['\\']) s hescape).bind _
      | false =>
          cases hplain : startsIn [isPlain '"'] s with
          | true =>
              obtain ⟨c, s, rfl, hc⟩ := startsIn_one hplain
              rcases ih (text ++ [c]) s (by simp at hr; omega) with
                ⟨body, tail, rfl, hb, hstep⟩ | hbreak
              · refine .inl ⟨[c] ++ body, tail, rfl, .more (.plain hc) hb, ?_⟩
                refine (steps_refuse hback).bind ((steps_accept hc).bind ?_)
                simpa using hstep
              · refine .inr (Breaks.after (steps_refuse hback) (Breaks.after (steps_accept hc) ?_))
                simpa using hbreak
          | false =>
              refine .inl ⟨[], s, rfl, .none, ?_⟩
              rw [List.append_nil]
              exact (steps_refuse hback).bind ((steps_refuse hplain).bind rfl)

/-- A string literal is there, or reading fails. -/
theorem lexString_cases (index : Nat) (s : List Char) :
    (∃ body tail, s = body ++ '"' :: tail ∧ Pieces '"' body) ∨
      Breaks index ('"' :: s) lexString (.between index ('"' :: s)) := by
  have hopen : Steps (accept [only '"']) (.inside index [] ('"' :: s)) true
      (.inside index ['"'] s) := steps_accept rfl
  rcases lexStringBody_cases index ['"'] s.length s (Nat.le_refl _) with
    ⟨body, tail, hs, hb, hstep⟩ | hbreak
  · cases hclose : startsIn [only '"'] tail with
    | true =>
        obtain ⟨c, tail, rfl, hc⟩ := startsIn_one hclose
        obtain rfl : c = '"' := by simpa [only] using hc
        exact .inl ⟨body, tail, hs, hb⟩
    | false =>
        refine .inr (Breaks.after hopen.discard (Breaks.after (steps_get _) (Breaks.after hstep ?_)))
        apply Breaks.after (steps_refuse hclose)
        apply Breaks.after steps_pending
        refine Breaks.bind ?_ _
        exact breaks_fail (by simp [hs]) trivial
  · exact .inr (Breaks.after hopen.discard (Breaks.after (steps_get _) (hbreak.bind _)))

theorem steps_lexOperator_relation {c : Char} (h : isRelation c = true) :
    Steps lexOperator (.between index (c :: '=' :: rest)) ⟨.operator, String.ofList [c, '=']⟩
      (.between (index + 2) rest) := by
  have hfirst : Steps (accept [isRelation]) (.inside index [] (c :: '=' :: rest)) true
      (.inside index [c] ('=' :: rest)) := steps_accept h
  apply Steps.bind hfirst
  apply Steps.bind (steps_accept (c := '=') rfl).discard
  exact steps_emitAs .operator

theorem steps_lexOperator {c : Char} (h : isSymbol c = true)
    (hr : isRelation c = true → startsIn [only '='] rest = false) :
    Steps lexOperator (.between index (c :: rest)) ⟨.operator, String.ofList [c]⟩
      (.between (index + 1) rest) := by
  cases hrel : isRelation c with
  | true =>
      have hfirst : Steps (accept [isRelation]) (.inside index [] (c :: rest)) true
          (.inside index [c] rest) := steps_accept hrel
      apply Steps.bind hfirst
      apply Steps.bind (steps_refuse (hr hrel)).discard
      exact steps_emitAs .operator
  | false =>
      have hno : startsIn [isRelation] (c :: rest) = false := by simp [startsIn, hrel]
      have hfirst : Steps (accept [isSymbol]) (.inside index [] (c :: rest)) true
          (.inside index [c] rest) := steps_accept h
      apply Steps.bind (@steps_refuse index [] _ _ hno)
      apply Steps.bind hfirst
      exact steps_emitAs .operator

end Rules

end ProtoScript.Token
