import ProtoScript.Proofs.Text.Messages
import ProtoScript.Proofs.Tree.Room
import ProtoScript.Proofs.Tree.Traversal

/-!
# What stops a parse

A parse stops at a token that does not fit, or at a number that no program could use. In the first case the
message can be written, whatever the token is. In the second case the number is one of the tokens that were
given: every rule reads tokens from the front of its input, and no rule but that for literals asks for the
value of one.
-/

namespace ProtoScript

/-- The message for the misfit can be written, whatever token it is about. -/
def Misfit.Legible (cause : Misfit) : Prop :=
  Text.oneSlot cause.template = true

instance (cause : Misfit) : Decidable cause.Legible :=
  inferInstanceAs (Decidable (_ = true))

theorem Misfit.legible_notText {text : String} (h : Text.plain text = true) :
    (Misfit.notText text).Legible :=
  Text.oneSlot_append_left (Text.plain_append (by decide) h) (by decide)

theorem Misfit.legible_notName (role : NameRole) : (Misfit.notName role).Legible := by
  have hrole : Text.plain role.description = true := by cases role <;> decide
  exact Text.oneSlot_append_left (Text.plain_append (by decide) hrole) (by decide)

theorem Misfit.legible_openBlock {closers : List String}
    (h : ∀ closer ∈ closers, Text.plain closer = true) : (Misfit.openBlock closers).Legible := by
  have hclosers := Text.plain_intercalate (by decide : Text.plain " or " = true) h
  exact Text.oneSlot_append_left (Text.plain_append (by decide) hclosers) (by decide)

theorem Misfit.legible_refused {cause : Misfit} (h : cause ∈ [.target, .notExpression, .notMember]) :
    cause.Legible := by
  revert cause
  decide

theorem ParseError.defect?_message {e : ParseError} (h : e.cause.Legible) : e.message.defect? = none :=
  Text.Message.defect?_one e.snippet h

namespace Grammar
open ProtoScript.Parser

variable {α β : Type}

/-- The token is a number that no program could use. -/
def Useless (token : Token) (reason : Literal.Unusable) : Prop :=
  (token.kind = .integer ∨ token.kind = .decimal) ∧ Literal.ofNumber token = .error (.unusable reason)

/-- A parse of the tokens has reason to stop. -/
inductive Grounded (ts : List Token) : Stop → Prop
  | misfit {cause : Misfit} {rest : List Token} (h : cause.Legible) : Grounded ts (.misfit cause rest)
  | unusable {token : Token} {reason : Literal.Unusable} (ht : token ∈ ts) (h : Useless token reason) :
      Grounded ts (.unusable reason)
  | tooDeep : Grounded ts .tooDeep

theorem Grounded.mono {ts rest : List Token} {stop : Stop} (h : Grounded rest stop) (hr : rest <:+ ts) :
    Grounded ts stop := by
  cases h with
  | misfit h => exact .misfit h
  | unusable ht h => exact .unusable (hr.subset ht) h
  | tooDeep => exact .tooDeep

/-- The verdict on the next token has a reason, if it ends the parse. -/
inductive Verdict.Grounded (head : Option Token) : Verdict α → Prop
  | take (value : α) : Grounded head (.take value)
  | stay (value : α) : Grounded head (.stay value)
  | misfit {cause : Misfit} (h : cause.Legible) : Grounded head (.misfit cause)
  | unusable {token : Token} {reason : Literal.Unusable} (ht : head = some token)
      (h : Useless token reason) : Grounded head (.unusable reason)

/-- The rule leaves the end of its input, and has a reason if it stops. -/
structure Draws (p : Parse α) : Prop where
  leaves {ts : List Token} {a : α} {rest : List Token} : p ts = .ok (a, rest) → rest <:+ ts
  stops {ts : List Token} {stop : Stop} : p ts = .error stop → Grounded ts stop

namespace Draws

theorem pure (a : α) : Draws (Pure.pure a : Parse α) where
  leaves := by
    rintro ts b rest ⟨⟩
    exact List.suffix_refl _
  stops := by rintro ts stop ⟨⟩

theorem tooDeep : Draws (throw .tooDeep : Parse α) where
  leaves := by rintro ts b rest ⟨⟩
  stops := by
    rintro ts stop ⟨⟩
    exact .tooDeep

theorem bind {p : Parse α} {f : α → Parse β} (h : Draws p) (hf : ∀ a, Draws (f a)) :
    Draws (p >>= f) where
  leaves {ts b rest} hr := by
    cases hp : p ts with
    | error stop => cases (bind_of_error hp).symm.trans hr
    | ok r =>
        obtain ⟨a, mid⟩ := r
        rw [bind_of_ok hp] at hr
        exact ((hf a).leaves hr).trans (h.leaves hp)
  stops {ts stop} hr := by
    rcases bind_eq_error hr with hp | ⟨a, mid, hp, hr⟩
    · exact h.stops hp
    · exact ((hf a).stops hr).mono (h.leaves hp)

theorem step {verdict : Option Token → Verdict α} (h : ∀ head, (verdict head).Grounded head) :
    Draws (decideBy verdict) where
  leaves {ts a rest} hr := by
    unfold decideBy at hr
    split at hr <;> cases hr
    · exact List.tail_suffix ts
    · exact List.suffix_refl _
  stops {ts stop} hr := by
    have hv := h ts.head?
    unfold decideBy at hr
    generalize verdict ts.head? = found at hr hv
    cases hv with
    | take value | stay value => cases hr
    | misfit hc =>
        cases hr
        exact .misfit hc
    | unusable ht hu =>
        cases hr
        exact .unusable (List.mem_of_mem_head? ht) hu

end Draws

/-- The value of a token is asked for only where it is a number. -/
theorem Verdict.literal_grounded (head : Option Token) : (Verdict.literal head).Grounded head := by
  cases head with
  | none => exact .stay _
  | some token =>
      have hnumber (hk : token.kind = .integer ∨ token.kind = .decimal) :
          (Verdict.number token).Grounded (some token) := by
        unfold Verdict.number
        split
        · exact .take _
        · exact .misfit (by decide)
        · exact .misfit (by decide)
        · exact .unusable rfl ⟨hk, ‹_›⟩
      simp only [Verdict.literal]
      -- the three words and then the kinds, of which only numbers ask for a value
      split
      · exact .take _
      split
      · exact .take _
      split
      · exact .take _
      split
      · exact hnumber (.inl ‹_›)
      · exact hnumber (.inr ‹_›)
      · exact .take _
      · exact .take _
      · exact .stay _
      · exact .stay _

/-- Every step that ends the parse has a reason to. -/
theorem Verdict.InUse.grounded {verdict : Option Token → Verdict α} (h : Verdict.InUse verdict)
    (head : Option Token) : (verdict head).Grounded head := by
  have hplain : ∀ text ∈ landmarks, Text.plain text = true := by decide
  cases h with
  | text h =>
      unfold Verdict.text
      split
      · exact .take _
      · exact .stay _
  | seen h => exact .stay _
  | expected h =>
      unfold Verdict.expected
      split
      · exact .take _
      · exact .misfit (Misfit.legible_notText (hplain _ h))
  | name =>
      unfold Verdict.name
      split
      · exact .take _
      · exact .stay _
  | expectedName role =>
      unfold Verdict.expectedName
      split
      · exact .take _
      · exact .misfit (Misfit.legible_notName role)
  | operator layer =>
      unfold Verdict.operator
      split
      · split
        · exact .take _
        · exact .stay _
      · exact .stay _
  | literal => exact Verdict.literal_grounded head
  | closing h =>
      cases head with
      | none => exact .misfit (Misfit.legible_openBlock fun closer hc => hplain closer (h hc))
      | some token => exact .stay _
  | ending => exact .stay _
  | ended =>
      cases head with
      | none => exact .stay _
      | some token => exact .misfit (by decide)
  | refused h => exact .misfit (Misfit.legible_refused h)

theorem Built.draws {p : Parse α} (h : Built p) : Draws p := by
  induction h with
  | pure a => exact .pure a
  | bind _ _ h hf => exact h.bind hf
  | step h => exact .step h.grounded
  | tooDeep => exact .tooDeep

/-- A parse fails with a message that can be written, or for want of the value of one of its tokens. -/
theorem parse_fails_grounded {rule : Rule} {tokens : List Token} {fault : ParseFault}
    (h : parse rule tokens = .error fault) :
    (∃ e, fault = .error e ∧ e.message.defect? = none) ∨
      ∃ reason, fault = .unusable reason ∧ ∃ token ∈ tokens, Useless token reason := by
  have hdeep : fault ≠ .tooDeep := by
    rintro rfl
    exact parse_ne_tooDeep _ _ h
  unfold parse at h
  split at h <;> cases h
  · next hstop =>
      cases (built_parseWhole _ rule).draws.stops hstop with
      | misfit hc => exact .inl ⟨_, rfl, ParseError.defect?_message hc⟩
  · next hstop =>
      cases (built_parseWhole _ rule).draws.stops hstop with
      | unusable ht hu => exact .inr ⟨_, rfl, _, ht, hu⟩
  · exact absurd rfl hdeep

end Grammar

end ProtoScript
