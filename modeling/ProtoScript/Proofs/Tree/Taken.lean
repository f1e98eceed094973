import ProtoScript.Proofs.Tree.Traversal

/-!
# The tokens that a parse takes

The parser takes names and literals by their class and all other tokens by their text. A symbol without a
place in the grammar is never taken, so a parse cannot get past it.
-/

namespace ProtoScript.Grammar
open ProtoScript.Parser

variable {α β : Type}

/-- The texts for which a token is taken, whatever its class. -/
def takenTexts : List String :=
  landmarks ++ ["NIL", "TRUE", "FALSE"] ++
    [Layer.logical, .comparison, .additive, .multiplicative].flatMap Layer.symbols

/-- The grammar has a place for the token. -/
def Usable (token : Token) : Prop :=
  token.kind = .operator → token.literal ∈ takenTexts

/-- Between `ts` and `rest` there are usable tokens only. -/
def TakenUpTo (ts rest : List Token) : Prop :=
  ∃ taken, ts = taken ++ rest ∧ ∀ token ∈ taken, Usable token

theorem TakenUpTo.refl (ts : List Token) : TakenUpTo ts ts :=
  ⟨[], rfl, by simp⟩

theorem TakenUpTo.trans {ts mid rest : List Token} (h : TakenUpTo ts mid) (h' : TakenUpTo mid rest) :
    TakenUpTo ts rest := by
  obtain ⟨taken, rfl, ht⟩ := h
  obtain ⟨more, rfl, hm⟩ := h'
  exact ⟨taken ++ more, (List.append_assoc ..).symm, List.forall_mem_append.mpr ⟨ht, hm⟩⟩

/-- The parser takes usable tokens, whether it ends well or at a misfit. -/
structure Takes (p : Parse α) : Prop where
  halts {ts : List Token} {a : α} {rest : List Token} : p ts = .ok (a, rest) → TakenUpTo ts rest
  misfits {ts : List Token} {cause : Misfit} {rest : List Token} :
    p ts = .error (.misfit cause rest) → TakenUpTo ts rest

theorem Takes.bind {p : Parse α} {f : α → Parse β} (h : Takes p) (hf : ∀ a, Takes (f a)) :
    Takes (p >>= f) where
  halts {ts b rest} hr := by
    cases hp : p ts with
    | error stop => cases (bind_of_error hp).symm.trans hr
    | ok r =>
        obtain ⟨a, mid⟩ := r
        rw [bind_of_ok hp] at hr
        exact (h.halts hp).trans ((hf a).halts hr)
  misfits {ts cause rest} hr := by
    rcases bind_eq_error hr with hp | ⟨a, mid, hp, hr⟩
    · exact h.misfits hp
    · exact (h.halts hp).trans ((hf a).misfits hr)

theorem mem_takenTexts_of_symbols {layer : Layer} {text : String} (h : text ∈ layer.symbols) :
    text ∈ takenTexts := by
  refine List.mem_append_right _ (List.mem_flatMap.mpr ⟨layer, ?_, h⟩)
  cases layer <;> simp

theorem mem_takenTexts_of_landmarks {text : String} (h : text ∈ landmarks) : text ∈ takenTexts :=
  List.mem_append_left _ (List.mem_append_left _ h)

theorem usable_of_literal {token : Token} {value : Option Literal}
    (h : Verdict.literal (some token) = .take value) : Usable token := by
  intro hk
  simp only [Verdict.literal, hk] at h
  split at h
  · next ht => exact ht ▸ by decide
  split at h
  · next ht => exact ht ▸ by decide
  split at h
  · next ht => exact ht ▸ by decide
  · cases h

/-- A token that a step takes is usable. -/
theorem Verdict.InUse.usable {verdict : Option Token → Verdict α} (h : Verdict.InUse verdict)
    {head : Option Token} {value : α} (hv : verdict head = .take value) :
    ∃ token, head = some token ∧ Usable token := by
  have htext {text : String} (hl : text ∈ landmarks) (hs : head.any (·.literal = text) = true) :
      ∃ token, head = some token ∧ Usable token := by
    cases head with
    | none => cases hs
    | some token =>
        refine ⟨token, rfl, fun _ => ?_⟩
        rw [of_decide_eq_true hs]
        exact mem_takenTexts_of_landmarks hl
  cases h with
  | text hl =>
      unfold Verdict.text at hv
      split at hv
      · exact htext hl ‹_›
      · cases hv
  | expected hl =>
      unfold Verdict.expected at hv
      split at hv
      · exact htext hl ‹_›
      · cases hv
  | name =>
      unfold Verdict.name at hv
      split at hv
      · refine ⟨_, rfl, fun hk => ?_⟩
        cases hk
      · cases hv
  | expectedName role =>
      unfold Verdict.expectedName at hv
      split at hv
      · refine ⟨_, rfl, fun hk => ?_⟩
        cases hk
      · cases hv
  | operator layer =>
      unfold Verdict.operator at hv
      split at hv
      · split at hv
        · exact ⟨_, rfl, fun _ => mem_takenTexts_of_symbols ‹_›⟩
        · cases hv
      · cases hv
  | literal =>
      cases head with
      | none => cases hv
      | some token => exact ⟨token, rfl, usable_of_literal hv⟩
  | seen => cases hv
  | closing => cases head <;> cases hv
  | ending => cases hv
  | ended => cases head <;> cases hv
  | refused => cases hv

theorem Verdict.InUse.takes {verdict : Option Token → Verdict α} (h : Verdict.InUse verdict) :
    Takes (decideBy verdict) where
  halts {ts a rest} hr := by
    unfold decideBy at hr
    split at hr
    · next hv =>
        cases hr
        obtain ⟨token, hhead, hu⟩ := h.usable hv
        obtain ⟨rest, rfl⟩ := List.head?_eq_some_iff.mp hhead
        exact ⟨[token], rfl, by simpa using hu⟩
    · cases hr
      exact .refl _
    · cases hr
    · cases hr
  misfits {ts cause rest} hr := by
    unfold decideBy at hr
    split at hr <;> cases hr
    exact .refl _

theorem Built.takes {p : Parse α} (h : Built p) : Takes p := by
  induction h with
  | pure a =>
      constructor
      · rintro ts b rest ⟨⟩
        exact .refl _
      · rintro ts cause rest ⟨⟩
  | bind _ _ h hf => exact h.bind hf
  | step h => exact h.takes
  | tooDeep =>
      constructor
      · rintro ts b rest ⟨⟩
      · rintro ts cause rest ⟨⟩

/-- A parse error is about the token behind those that were taken, or about the end of the input. -/
theorem taken_of_parse_error {rule : Rule} {ts : List Token} {e : ParseError}
    (h : parse rule ts = .error (.error e)) :
    ∃ taken rest, ts = taken ++ rest ∧ (∀ token ∈ taken, Usable token) ∧
      e.token = rest.head? ∧ e.index = taken.length := by
  unfold parse at h
  split at h <;> cases h
  next hw =>
    obtain ⟨taken, rfl, htaken⟩ := (built_parseWhole _ rule).takes.misfits hw
    exact ⟨taken, _, rfl, htaken, rfl, by simp⟩

end ProtoScript.Grammar
