import ProtoScript.Proofs.Tree.Blame
import ProtoScript.Proofs.Tree.Traversal

/-!
# One number in the place of another

No step of the parser tells two numbers apart, until one of them is taken for its value. So a number that
has no value is blamed wherever another number could stand, with its own place in the input, whatever
follows it.
-/

namespace ProtoScript.Grammar
open ProtoScript.Parser

variable {α β : Type} {good bad : Token} {cause : Misfit}

/-- A token that is a number by its class and by the start of its text. -/
structure Numeric (token : Token) : Prop where
  kind : token.kind = .integer ∨ token.kind = .decimal
  shaped : token.Shaped

namespace Numeric
variable {token : Token} (h : Numeric token)
include h

/-- A number is spelled like no keyword and like no symbol. -/
theorem literal_ne {text : String} (ht : Terminal (word text) ∨ Terminal (mark text)) :
    token.literal ≠ text := by
  rintro rfl
  have hkind : token.kind = .identifier ∨ token.kind = .operator :=
    ht.imp (fun ht => congrArg Token.kind (ht.eq h.shaped rfl))
      fun ht => congrArg Token.kind (ht.eq h.shaped rfl)
  rcases h.kind with hk | hk <;> simp [hk] at hkind

theorem not_mem_landmarks : token.literal ∉ landmarks := by
  have hterminal : ∀ text ∈ landmarks, Terminal (word text) ∨ Terminal (mark text) := by decide
  exact fun hmem => h.literal_ne (hterminal _ hmem) rfl

theorem not_mem_symbols (layer : Layer) : token.literal ∉ layer.symbols := by
  have hterminal : ∀ text ∈ layer.symbols, Terminal (word text) ∨ Terminal (mark text) := by
    cases layer <;> decide
  exact fun hmem => h.literal_ne (hterminal _ hmem) rfl

theorem any_literal {text : String} (ht : text ∈ landmarks) :
    (some token).any (·.literal = text) = false := by
  have hne : token.literal ≠ text := fun heq => h.not_mem_landmarks (heq ▸ ht)
  simpa using hne

theorem verdict_name : Verdict.name (some token) = .stay none := by
  obtain ⟨kind, literal⟩ := token
  rcases h.kind with rfl | rfl <;> rfl

theorem verdict_expectedName (role : NameRole) :
    Verdict.expectedName role (some token) = .misfit (.notName role) := by
  obtain ⟨kind, literal⟩ := token
  rcases h.kind with rfl | rfl <;> rfl

theorem verdict_closing {closers : List String} (hc : closers ⊆ landmarks) :
    Verdict.closing closers (some token) = .stay false := by
  have hmem : token.literal ∉ closers := fun hmem => h.not_mem_landmarks (hc hmem)
  simpa [Verdict.closing] using hmem

/-- A number is taken for its value. -/
theorem verdict_literal : Verdict.literal (some token) = Verdict.number token := by
  have hword : ∀ text ∈ ["NIL", "TRUE", "FALSE"], token.literal ≠ text := by
    have hterminal : ∀ text ∈ ["NIL", "TRUE", "FALSE"], Terminal (word text) := by decide
    exact fun text ht => h.literal_ne (.inl (hterminal text ht))
  simp only [Verdict.literal, if_neg (hword "NIL" (by decide)), if_neg (hword "TRUE" (by decide)),
    if_neg (hword "FALSE" (by decide))]
  rcases h.kind with hk | hk <;> rw [hk]

end Numeric

theorem Verdict.number_ne_stay {token : Token} {value : Option Literal} :
    Verdict.number token ≠ .stay value := by
  unfold Verdict.number
  split <;> nofun

/-- A step that goes on without a number goes on without any other. A step that takes one takes it for its
value, and so finds that another has none. -/
theorem Verdict.InUse.exchange {verdict : Option Token → Verdict α} (h : Verdict.InUse verdict)
    (hgood : Numeric good) (hbad : Numeric bad) (hcause : Verdict.number bad = .misfit cause) {a : α} :
    (verdict (some good) = .stay a → verdict (some bad) = .stay a) ∧
      (verdict (some good) = .take a → verdict (some bad) = .misfit cause) := by
  cases h with
  | text h => simp [Verdict.text_of_any (hgood.any_literal h), Verdict.text_of_any (hbad.any_literal h)]
  | seen h => simp [Verdict.seen, hgood.any_literal h, hbad.any_literal h]
  | expected h => simp [Verdict.expected, hgood.any_literal h]
  | name => simp [hgood.verdict_name, hbad.verdict_name]
  | expectedName role => simp [hgood.verdict_expectedName]
  | operator layer =>
      simp [Verdict.operator, hgood.not_mem_symbols layer, hbad.not_mem_symbols layer]
  | literal =>
      rw [hgood.verdict_literal, hbad.verdict_literal]
      exact ⟨fun h => absurd h Verdict.number_ne_stay, fun _ => hcause⟩
  | closing h => simp [hgood.verdict_closing h, hbad.verdict_closing h]
  | ending => simp [Verdict.ending]
  | ended => simp [Verdict.ended]
  | refused h => simp

/-- Where the parser takes the `good` number it stops at the `bad` one. Until then it does the same with
both. -/
def Diverts (good bad : Token) (cause : Misfit) (p : Parse α) : Prop :=
  ∀ front more after a rest, p (front ++ good :: more) = .ok (a, rest) →
    (∃ left, rest = left ++ good :: more ∧ p (front ++ bad :: after) = .ok (a, left ++ bad :: after)) ∨
      p (front ++ bad :: after) = .error (.misfit cause (bad :: after))

namespace Diverts

theorem pure (a : α) : Diverts good bad cause (Pure.pure a : Parse α) := by
  rintro front more after b rest ⟨⟩
  exact .inl ⟨front, rfl, rfl⟩

theorem tooDeep : Diverts good bad cause (throw .tooDeep : Parse α) := by
  rintro front more after b rest ⟨⟩

theorem bind {p : Parse α} {f : α → Parse β} (h : Diverts good bad cause p)
    (hf : ∀ a, Diverts good bad cause (f a)) : Diverts good bad cause (p >>= f) := by
  intro front more after b rest hr
  obtain ⟨a, mid, hfirst, hsecond⟩ := Runs.split hr
  rcases h front more after a mid hfirst with ⟨left, rfl, hsame⟩ | hstop
  · rw [bind_of_ok hsame]
    exact hf a left more after b rest hsecond
  · exact .inr (bind_of_error hstop)

theorem step {verdict : Option Token → Verdict α}
    (hstay : ∀ a, verdict (some good) = .stay a → verdict (some bad) = .stay a)
    (htake : ∀ a, verdict (some good) = .take a → verdict (some bad) = .misfit cause) :
    Diverts good bad cause (decideBy verdict) := by
  intro front more after a rest hr
  cases hv : verdict (front ++ good :: more).head? with
  | misfit cause => cases (decideBy_misfit hv).symm.trans hr
  | unusable reason => cases (decideBy_unusable hv).symm.trans hr
  | take value =>
      cases (decideBy_take hv).symm.trans hr
      cases front with
      | nil => exact .inr (decideBy_misfit (htake a hv))
      | cons token front => exact .inl ⟨front, rfl, decideBy_take hv⟩
  | stay value =>
      cases (decideBy_stay hv).symm.trans hr
      cases front with
      | nil => exact .inl ⟨[], rfl, decideBy_stay (hstay a hv)⟩
      | cons token front => exact .inl ⟨token :: front, rfl, decideBy_stay hv⟩

end Diverts

theorem Built.diverts {p : Parse α} (h : Built p) (hgood : Numeric good) (hbad : Numeric bad)
    (hcause : Verdict.number bad = .misfit cause) : Diverts good bad cause p := by
  induction h with
  | pure a => exact .pure a
  | bind _ _ h hf => exact h.bind hf
  | step h =>
      exact .step (fun a => (h.exchange hgood hbad hcause).1) fun a => (h.exchange hgood hbad hcause).2
  | tooDeep => exact .tooDeep

/-- A number can stand behind the tokens. -/
def TakesNumber (rule : Rule) (before : List Token) : Prop :=
  ∃ number more tree, Numeric number ∧ parse rule (before ++ number :: more) = .ok tree

/-- A number without a value is blamed wherever a number can stand, whatever follows it. -/
theorem parse_blames_number {rule : Rule} {before : List Token} (h : TakesNumber rule before)
    (hbad : Numeric bad) (hcause : Verdict.number bad = .misfit cause) (after : List Token) :
    parse rule (before ++ bad :: after) =
      .error (.error { cause, token := some bad, index := before.length }) := by
  obtain ⟨good, more, tree, hgood, hparse⟩ := h
  have hwhole : parseWhole (roomFor (before ++ good :: more)) rule (before ++ good :: more) =
      .ok (tree, []) := by
    rw [parseWhole_eq]
    exact (bind_of_ok ((parse_eq_ok_iff ..).mp hparse)).trans rfl
  -- the two inputs are parsed with one room, which is enough for both
  let room := max (roomFor (before ++ good :: more)) (roomFor (before ++ bad :: after))
  rw [← parseWhole_roomFor rule _ (Nat.le_max_left _ _ : _ ≤ room)] at hwhole
  have hdiverts := (built_parseWhole room rule).diverts hgood hbad hcause
  rcases hdiverts before more after tree [] hwhole with ⟨left, hleft, -⟩ | hstop
  · simp at hleft
  · rw [parseWhole_roomFor rule _ (Nat.le_max_right ..)] at hstop
    exact parse_of_misfit hstop

end ProtoScript.Grammar
