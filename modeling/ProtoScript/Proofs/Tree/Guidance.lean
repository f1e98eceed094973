import ProtoScript.Proofs.Tree.Decision
import ProtoScript.Proofs.Tree.Extension

/-!
# Parsers that are guided by the next token

Where a guided parser stops depends on the tokens up to there and on the next one, never on what follows.
If it stops at a misfit, the tokens in front of it can be completed. Both carry over from the steps of a
sequence to the whole: what completes the first step leads to a place from which the second one can be
completed.
-/

namespace ProtoScript.Grammar
open ProtoScript.Parser

variable {α β : Type}

/-- With enough room the rule comes to the outcome. -/
def ComesTo (rule : Nat → Parse α) (ts : List Token) (outcome : Except Stop (α × List Token)) : Prop :=
  ∃ enough, ∀ room, enough ≤ room → rule room ts = outcome

namespace ComesTo
variable {ts rest : List Token}

theorem pure (a : α) (ts : List Token) : ComesTo (fun _ => Pure.pure a) ts (.ok (a, ts)) :=
  ⟨0, fun _ _ => rfl⟩

theorem shift {rule : Nat → Parse α} {outcome : Except Stop (α × List Token)}
    (h : ComesTo (fun room => rule (room + 1)) ts outcome) : ComesTo rule ts outcome := by
  obtain ⟨enough, h⟩ := h
  refine ⟨enough + 1, fun room hroom => ?_⟩
  cases room with
  | zero => cases hroom
  | succ room => exact h room (Nat.le_of_succ_le_succ hroom)

section Sequence
variable {rule : Nat → Parse α} {f : α → Nat → Parse β} {outcome : Except Stop (β × List Token)} {a : α}

theorem bind (h : ComesTo rule ts (.ok (a, rest))) (h' : ComesTo (f a) rest outcome) :
    ComesTo (fun room => rule room >>= fun a => f a room) ts outcome := by
  obtain ⟨enough, h⟩ := h
  obtain ⟨enough', h'⟩ := h'
  refine ⟨max enough enough', fun room hroom => ?_⟩
  have hfirst := h room (Nat.le_trans (Nat.le_max_left ..) hroom)
  exact (bind_of_ok hfirst).trans (h' room (Nat.le_trans (Nat.le_max_right ..) hroom))

theorem stop {early : Stop} (h : ComesTo rule ts (.error early)) :
    ComesTo (fun room => rule room >>= fun a => f a room) ts (.error early) := by
  obtain ⟨enough, h⟩ := h
  exact ⟨enough, fun room hroom => bind_of_error (h room hroom)⟩

variable {verdict : Option Token → Verdict α}

theorem take (hv : verdict ts.head? = .take a) (h : ComesTo (f a) ts.tail outcome) :
    ComesTo (fun room => decideBy verdict >>= fun a => f a room) ts outcome := by
  have hstep : ComesTo (fun _ => decideBy verdict) ts (.ok (a, ts.tail)) :=
    ⟨0, fun _ _ => decideBy_take hv⟩
  exact hstep.bind h

theorem stay (hv : verdict ts.head? = .stay a) (h : ComesTo (f a) ts outcome) :
    ComesTo (fun room => decideBy verdict >>= fun a => f a room) ts outcome := by
  have hstep : ComesTo (fun _ => decideBy verdict) ts (.ok (a, ts)) := ⟨0, fun _ _ => decideBy_stay hv⟩
  exact hstep.bind h

theorem misfit {cause : Misfit} (hv : verdict ts.head? = .misfit cause) :
    ComesTo (fun room => decideBy verdict >>= fun a => f a room) ts (.error (.misfit cause ts)) := by
  have hstep : ComesTo (fun _ => decideBy verdict) ts (.error (.misfit cause ts)) :=
    ⟨0, fun _ _ => decideBy_misfit hv⟩
  exact hstep.stop

end Sequence

end ComesTo

/-- No condition on what comes next. -/
def Anything (_ : List Token) : Prop :=
  True

/-- Nothing can come next. -/
def Nothing (_ : List Token) : Prop :=
  False

/-- The tokens that a started input is completed with. -/
def fillers : List Token :=
  [word "x", word "RETURN", mark ";", word "IN", word "DO", word "END", mark "(", mark ")"]

theorem lex_fillers : (Token.lex "x RETURN ; IN DO END ( )").tokens = fillers := by
  rfl

/-- Behind the taken tokens, some more bring the rule to its end in front of every input that can stand
`behind` it. Together with that input they are `ahead`. -/
def Completes (ahead behind : List Token → Prop) (rule : Nat → Parse α) (taken : List Token) : Prop :=
  ∃ more a, more ⊆ fillers ∧ ∀ ts, behind ts → ahead (more ++ ts) ∧
    ComesTo rule (taken ++ (more ++ ts)) (.ok (a, ts))

/-- What the rule does at `room`, it does with enough room on every input that is the same up to the next
token. If it ends well, it does so in front of every input that can stand `behind` it, and if it takes
nothing there, that input is `ahead`. If it ends at a misfit, the tokens taken until then can be
completed. -/
structure Tracks (room : Nat) (ahead behind : List Token → Prop) (rule : Nat → Parse α) : Prop where
  halts {ts : List Token} {a : α} {rest : List Token} : rule room ts = .ok (a, rest) →
    ∃ taken, ts = taken ++ rest ∧
      (∀ us, us.head? = rest.head? → ComesTo rule (taken ++ us) (.ok (a, us))) ∧
      ∀ us, behind us → ComesTo rule (taken ++ us) (.ok (a, us)) ∧ (taken = [] → ahead us)
  blames {ts : List Token} {cause : Misfit} {rest : List Token} :
    rule room ts = .error (.misfit cause rest) →
    ∃ taken, ts = taken ++ rest ∧
      (∀ us, us.head? = rest.head? → ComesTo rule (taken ++ us) (.error (.misfit cause us))) ∧
      (taken ≠ [] → Completes Anything behind rule taken)

/-- The rule can be completed from its start on, too. -/
structure Guided (room : Nat) (ahead behind : List Token → Prop) (rule : Nat → Parse α) : Prop where
  tracks : Tracks room ahead behind rule
  completes : Completes ahead behind rule []

theorem head?_append_congr {taken us rest : List Token} (h : taken = [] → us.head? = rest.head?) :
    (taken ++ us).head? = (taken ++ rest).head? := by
  cases taken with
  | nil => exact h rfl
  | cons token taken => rfl

theorem verdict_congr {verdict : Option Token → Verdict α} {decision : Verdict α}
    {taken us rest : List Token} (hv : verdict (taken ++ rest).head? = decision)
    (h : taken = [] → us.head? = rest.head?) : verdict (taken ++ us).head? = decision := by
  rw [head?_append_congr h, hv]

section Judgments
variable {room : Nat} {ahead between behind : List Token → Prop}

namespace Completes

theorem bind {rule : Nat → Parse α} {f : α → Nat → Parse β} {taken : List Token}
    (h : Completes ahead between rule taken) (hf : ∀ a, Completes between behind (f a) []) :
    Completes ahead behind (fun room => rule room >>= fun a => f a room) taken := by
  obtain ⟨more, a, hmore, hfirst⟩ := h
  obtain ⟨more', b, hmore', hsecond⟩ := hf a
  refine ⟨more ++ more', b, List.append_subset.mpr ⟨hmore, hmore'⟩, fun ts hts => ?_⟩
  obtain ⟨hbetween, hb⟩ := hsecond ts hts
  obtain ⟨hahead, ha⟩ := hfirst (more' ++ ts) hbetween
  rw [List.append_assoc]
  exact ⟨hahead, ha.bind hb⟩

theorem mono {rule : Nat → Parse α} {taken : List Token} {wider : List Token → Prop}
    (h : Completes ahead behind rule taken) (hw : ∀ ts, ahead ts → wider ts) :
    Completes wider behind rule taken := by
  obtain ⟨more, a, hmore, hrule⟩ := h
  refine ⟨more, a, hmore, fun ts hts => ?_⟩
  obtain ⟨hahead, hy⟩ := hrule ts hts
  exact ⟨hw _ hahead, hy⟩

theorem shift {rule : Nat → Parse α} {taken : List Token}
    (h : Completes ahead behind (fun room => rule (room + 1)) taken) :
    Completes ahead behind rule taken := by
  obtain ⟨more, a, hmore, hrule⟩ := h
  refine ⟨more, a, hmore, fun ts hts => ?_⟩
  obtain ⟨hahead, hy⟩ := hrule ts hts
  exact ⟨hahead, hy.shift⟩

end Completes

/-- A misfit stands behind tokens that can be completed, be there any or none. -/
theorem Guided.blames {rule : Nat → Parse α} (h : Guided room Anything behind rule) {ts : List Token}
    {cause : Misfit} {rest : List Token} (hr : rule room ts = .error (.misfit cause rest)) :
    ∃ taken, ts = taken ++ rest ∧
      (∀ us, us.head? = rest.head? → ComesTo rule (taken ++ us) (.error (.misfit cause us))) ∧
      Completes Anything behind rule taken := by
  obtain ⟨taken, hts, hsame, hfill⟩ := h.tracks.blames hr
  refine ⟨taken, hts, hsame, ?_⟩
  by_cases ht : taken = []
  · rw [ht]
    exact h.completes
  · exact hfill ht

namespace Tracks

theorem pure (a : α) (h : ∀ ts, behind ts → ahead ts) :
    Tracks room ahead behind fun _ => Pure.pure a where
  halts := by
    rintro ts b rest ⟨⟩
    exact ⟨[], rfl, fun us _ => .pure a us, fun us hus => ⟨.pure a us, fun _ => h us hus⟩⟩
  blames := nofun

theorem mono {rule : Nat → Parse α} {wider : List Token → Prop} (h : Tracks room ahead behind rule)
    (hw : ∀ ts, ahead ts → wider ts) : Tracks room wider behind rule where
  halts hr := by
    obtain ⟨taken, hts, hsame, hbehind⟩ := h.halts hr
    refine ⟨taken, hts, hsame, fun us hus => ?_⟩
    obtain ⟨hy, hahead⟩ := hbehind us hus
    exact ⟨hy, fun ht => hw us (hahead ht)⟩
  blames := h.blames

theorem shift {rule : Nat → Parse α} (h : Tracks room ahead behind fun room => rule (room + 1)) :
    Tracks (room + 1) ahead behind rule where
  halts hr := by
    obtain ⟨taken, hts, hsame, hbehind⟩ := h.halts hr
    refine ⟨taken, hts, fun us hus => (hsame us hus).shift, fun us hus => ?_⟩
    obtain ⟨hy, hahead⟩ := hbehind us hus
    exact ⟨hy.shift, hahead⟩
  blames hr := by
    obtain ⟨taken, hts, hsame, hfill⟩ := h.blames hr
    exact ⟨taken, hts, fun us hus => (hsame us hus).shift, fun ht => (hfill ht).shift⟩

/-- Without room nothing is claimed. -/
theorem zero {rule : Nat → Parse α} (h : rule 0 = throw .tooDeep) : Tracks 0 ahead behind rule where
  halts hr := by
    rw [h] at hr
    cases hr
  blames hr := by
    rw [h] at hr
    cases hr

theorem bind {rule : Nat → Parse α} {f : α → Nat → Parse β} (h : Tracks room ahead between rule)
    (hf : ∀ a, Guided room between behind (f a)) :
    Tracks room ahead behind fun room => rule room >>= fun a => f a room where
  halts hr := by
    obtain ⟨a, mid, hfirst, hsecond⟩ := Runs.split hr
    obtain ⟨taken, rfl, hsame, hbehind⟩ := h.halts hfirst
    obtain ⟨taken', rfl, hsame', hbehind'⟩ := (hf a).tracks.halts hsecond
    refine ⟨taken ++ taken', (List.append_assoc ..).symm, fun us hus => ?_, fun us hus => ?_⟩
    · rw [List.append_assoc]
      exact (hsame _ (head?_append_congr fun _ => hus)).bind (hsame' us hus)
    · obtain ⟨hy, hbetween⟩ := hbehind' us hus
      rw [List.append_assoc]
      by_cases ht : taken' = []
      · subst ht
        obtain ⟨hy', hahead⟩ := hbehind us (hbetween rfl)
        exact ⟨hy'.bind hy, fun ht => hahead (List.append_eq_nil_iff.mp ht).1⟩
      · exact ⟨(hsame _ (head?_append_congr fun h => absurd h ht)).bind hy,
          fun h => absurd (List.append_eq_nil_iff.mp h).2 ht⟩
  blames hr := by
    rcases bind_eq_error hr with hfirst | ⟨a, mid, hfirst, hsecond⟩
    · obtain ⟨taken, rfl, hsame, hfill⟩ := h.blames hfirst
      exact ⟨taken, rfl, fun us hus => (hsame us hus).stop,
        fun ht => (hfill ht).bind fun a => (hf a).completes⟩
    · obtain ⟨taken, rfl, hsame, hbehind⟩ := h.halts hfirst
      obtain ⟨taken', rfl, hsame', hfill⟩ := (hf a).tracks.blames hsecond
      refine ⟨taken ++ taken', (List.append_assoc ..).symm, fun us hus => ?_, fun _ => ?_⟩
      · rw [List.append_assoc]
        exact (hsame _ (head?_append_congr fun _ => hus)).bind (hsame' us hus)
      by_cases ht : taken' = []
      · -- The second step has not started, so all of it is completed.
        subst ht
        obtain ⟨more, b, hmore, hrule⟩ := (hf a).completes
        refine ⟨more, b, hmore, fun ts hts => ⟨trivial, ?_⟩⟩
        obtain ⟨hbetween, hy⟩ := hrule ts hts
        rw [List.append_nil]
        exact (hbehind _ hbetween).1.bind hy
      · obtain ⟨more, b, hmore, hrule⟩ := hfill ht
        refine ⟨more, b, hmore, fun ts hts => ⟨trivial, ?_⟩⟩
        rw [List.append_assoc]
        exact (hsame _ (head?_append_congr fun h => absurd h ht)).bind (hrule ts hts).2

/-- A step that the next token decides. A misfit there is one on which nothing has been taken. -/
theorem step {verdict : Option Token → Verdict α} {f : α → Nat → Parse β}
    (hnone : ∀ a, verdict none ≠ .take a)
    (htake : ∀ token a, verdict (some token) = .take a → Guided room Anything behind (f a))
    (hstay : ∀ head a, verdict head = .stay a →
      Tracks room (fun ts => ahead ts ∧ verdict ts.head? = .stay a) behind (f a)) :
    Tracks room ahead behind fun room => decideBy verdict >>= fun a => f a room where
  halts {ts b rest} hr := by
    cases hv : verdict ts.head? with
    | take a =>
        cases ts with
        | nil => exact absurd hv (hnone a)
        | cons token ts =>
            have hf := (bind_of_ok (decideBy_take hv)).symm.trans hr
            obtain ⟨taken, rfl, hsame, hbehind⟩ := (htake token a hv).tracks.halts hf
            exact ⟨token :: taken, rfl, fun us hus => .take hv (hsame us hus),
              fun us hus => ⟨.take hv (hbehind us hus).1, nofun⟩⟩
    | stay a =>
        have hf := (bind_of_ok (decideBy_stay hv)).symm.trans hr
        obtain ⟨taken, rfl, hsame, hbehind⟩ := (hstay _ a hv).halts hf
        refine ⟨taken, rfl, fun us hus => ?_, fun us hus => ?_⟩
        · exact .stay (verdict_congr hv fun _ => hus) (hsame us hus)
        obtain ⟨hy, hidle⟩ := hbehind us hus
        refine ⟨?_, fun ht => (hidle ht).1⟩
        by_cases ht : taken = []
        · subst ht
          exact .stay (hidle rfl).2 hy
        · exact .stay (verdict_congr hv fun h => absurd h ht) hy
    | misfit cause => cases (bind_of_error (decideBy_misfit hv)).symm.trans hr
    | unusable reason => cases (bind_of_error (decideBy_unusable hv)).symm.trans hr
  blames {ts cause rest} hr := by
    cases hv : verdict ts.head? with
    | take a =>
        cases ts with
        | nil => exact absurd hv (hnone a)
        | cons token ts =>
            have hf := (bind_of_ok (decideBy_take hv)).symm.trans hr
            obtain ⟨taken, rfl, hsame, more, b, hmore, hrule⟩ := (htake token a hv).blames hf
            refine ⟨token :: taken, rfl, fun us hus => .take hv (hsame us hus), fun _ => ?_⟩
            exact ⟨more, b, hmore, fun us hus => ⟨trivial, .take hv (hrule us hus).2⟩⟩
    | stay a =>
        have hf := (bind_of_ok (decideBy_stay hv)).symm.trans hr
        obtain ⟨taken, rfl, hsame, hfill⟩ := (hstay _ a hv).blames hf
        refine ⟨taken, rfl, fun us hus => ?_, fun ht => ?_⟩
        · exact .stay (verdict_congr hv fun _ => hus) (hsame us hus)
        obtain ⟨more, b, hmore, hrule⟩ := hfill ht
        exact ⟨more, b, hmore, fun us hus =>
          ⟨trivial, .stay (verdict_congr hv fun h => absurd h ht) (hrule us hus).2⟩⟩
    | misfit cause' =>
        cases (bind_of_error (decideBy_misfit hv)).symm.trans hr
        exact ⟨[], rfl, fun us hus => .misfit (by rw [List.nil_append, hus, hv]), nofun⟩
    | unusable reason => cases (bind_of_error (decideBy_unusable hv)).symm.trans hr

theorem fail (cause : Misfit) : Tracks room ahead behind fun _ => (Parser.fail cause : Parse α) where
  halts := nofun
  blames := by
    rintro ts cause' rest ⟨⟩
    exact ⟨[], rfl, fun us _ => ⟨0, fun _ _ => rfl⟩, nofun⟩

theorem ite {c : Prop} [Decidable c] {p q : Nat → Parse α} (hp : Tracks room ahead behind p)
    (hq : Tracks room ahead behind q) :
    Tracks room ahead behind fun room => if c then p room else q room := by
  split
  · exact hp
  · exact hq

theorem accept {text : String} {p q : Nat → Parse β} (hp : Guided room Anything behind p)
    (hq : Tracks room (fun ts => ahead ts ∧ Avoids text ts) behind q) :
    Tracks room ahead behind fun room => (do if ← Parser.accept text then p room else q room) := by
  simp only [accept_eq]
  refine .step nofun (fun token found hv => ?_) fun head found hv => ?_
  · obtain rfl := Verdict.text_take hv
    exact hp
  · obtain rfl := Verdict.text_stay hv
    exact hq.mono fun ts h => ⟨h.1, Verdict.text_of_any h.2⟩

theorem look {text : String} {f : Bool → Nat → Parse β}
    (h : ∀ found,
      Tracks room (fun ts => ahead ts ∧ ts.head?.any (·.literal = text) = found) behind (f found)) :
    Tracks room ahead behind fun room => looksAt text >>= fun found => f found room := by
  simp only [looksAt_eq]
  exact .step nofun nofun fun head found _ =>
    (h found).mono fun ts h => ⟨h.1, congrArg Verdict.stay h.2⟩

theorem expect {text : String} {f : Unit → Nat → Parse β} (h : Guided room Anything behind (f ())) :
    Tracks room ahead behind fun room => Parser.expect text >>= fun u => f u room := by
  simp only [expect_eq]
  exact .step nofun (fun _ _ _ => h) fun _ _ hv => absurd hv Verdict.expected_ne_stay

theorem name {role : NameRole} {f : String → Nat → Parse β}
    (h : ∀ name, Guided room Anything behind (f name)) :
    Tracks room ahead behind fun room => expectName role >>= fun name => f name room := by
  simp only [expectName_eq]
  exact .step nofun (fun _ name _ => h name) fun _ _ hv => absurd hv Verdict.expectedName_ne_stay

theorem acceptName {f : Option String → Nat → Parse β}
    (hsome : ∀ name, Guided room Anything behind (f (some name)))
    (hnone : Tracks room (fun ts => ahead ts ∧ Verdict.name ts.head? = .stay none) behind (f none)) :
    Tracks room ahead behind fun room => Parser.acceptName >>= fun name => f name room := by
  simp only [acceptName_eq]
  refine .step nofun (fun token found hv => ?_) fun head found hv => ?_
  · obtain ⟨name, rfl⟩ := Verdict.name_take hv
    exact hsome name
  · obtain rfl := Verdict.name_stay hv
    exact hnone

theorem acceptOperator {layer : Layer} {f : Option Operator → Nat → Parse β}
    (hsome : ∀ operator, Guided room Anything behind (f (some operator)))
    (hnone : Tracks room (fun ts => ahead ts ∧ Verdict.operator layer ts.head? = .stay none) behind
      (f none)) :
    Tracks room ahead behind fun room =>
      Parser.acceptOperator layer >>= fun operator => f operator room := by
  simp only [acceptOperator_eq]
  refine .step nofun (fun token found hv => ?_) fun head found hv => ?_
  · obtain ⟨operator, rfl⟩ := Verdict.operator_take hv
    exact hsome operator
  · obtain rfl := Verdict.operator_stay hv
    exact hnone

theorem acceptLiteral {f : Option Literal → Nat → Parse β}
    (hsome : ∀ value, Guided room Anything behind (f (some value)))
    (hnone : Tracks room (fun ts => ahead ts ∧ Verdict.literal ts.head? = .stay none) behind (f none)) :
    Tracks room ahead behind fun room => Parser.acceptLiteral >>= fun value => f value room := by
  simp only [acceptLiteral_eq]
  refine .step nofun (fun token found hv => ?_) fun head found hv => ?_
  · obtain ⟨value, rfl⟩ := Verdict.literal_take hv
    exact hsome value
  · obtain rfl := Verdict.literal_stay hv
    exact hnone

end Tracks

namespace Completes

/-- A rule that takes the next token is completed with one that fits. -/
theorem take {verdict : Option Token → Verdict α} {f : α → Nat → Parse β} {a : α} (token : Token)
    (hv : verdict (some token) = .take a) (ht : token ∈ fillers) (hahead : ∀ ts, ahead (token :: ts))
    (h : Completes Anything behind (f a) []) :
    Completes ahead behind (fun room => decideBy verdict >>= fun a => f a room) [] := by
  obtain ⟨more, b, hmore, hrule⟩ := h
  refine ⟨token :: more, b, List.cons_subset.mpr ⟨ht, hmore⟩, fun ts hts => ⟨hahead _, ?_⟩⟩
  exact .take hv (hrule ts hts).2

theorem stay {verdict : Option Token → Verdict α} {f : α → Nat → Parse β} {a : α}
    (h : Completes (fun ts => ahead ts ∧ verdict ts.head? = .stay a) behind (f a) []) :
    Completes ahead behind (fun room => decideBy verdict >>= fun a => f a room) [] := by
  obtain ⟨more, b, hmore, hrule⟩ := h
  refine ⟨more, b, hmore, fun ts hts => ?_⟩
  obtain ⟨⟨hahead, hv⟩, hy⟩ := hrule ts hts
  exact ⟨hahead, .stay hv hy⟩

end Completes

namespace Guided

theorem pure (a : α) (h : ∀ ts, behind ts → ahead ts) :
    Guided room ahead behind fun _ => Pure.pure a where
  tracks := .pure a h
  completes := ⟨[], a, List.nil_subset _, fun ts hts => ⟨h ts hts, .pure a ts⟩⟩

theorem bind {rule : Nat → Parse α} {f : α → Nat → Parse β} (h : Guided room ahead between rule)
    (hf : ∀ a, Guided room between behind (f a)) :
    Guided room ahead behind fun room => rule room >>= fun a => f a room where
  tracks := h.tracks.bind hf
  completes := h.completes.bind fun a => (hf a).completes

theorem mono {rule : Nat → Parse α} {wider : List Token → Prop} (h : Guided room ahead behind rule)
    (hw : ∀ ts, ahead ts → wider ts) : Guided room wider behind rule where
  tracks := h.tracks.mono hw
  completes := h.completes.mono hw

theorem accept {text : String} {p q : Nat → Parse β} (hp : Guided room Anything behind p)
    (hq : Guided room (fun ts => ahead ts ∧ Avoids text ts) behind q) :
    Guided room ahead behind fun room => (do if ← Parser.accept text then p room else q room) where
  tracks := .accept hp hq.tracks
  completes := by
    simp only [accept_eq]
    exact .stay (a := false) (hq.completes.mono fun ts h => ⟨h.1, Verdict.text_of_any h.2⟩)

theorem look {text : String} {f : Bool → Nat → Parse β}
    (htrue : Tracks room (fun ts => ahead ts ∧ ts.head?.any (·.literal = text) = true) behind (f true))
    (hfalse : Guided room (fun ts => ahead ts ∧ Avoids text ts) behind (f false)) :
    Guided room ahead behind fun room => looksAt text >>= fun found => f found room where
  tracks := .look fun found => by
    cases found with
    | true => exact htrue
    | false => exact hfalse.tracks
  completes := by
    simp only [looksAt_eq]
    exact .stay (a := false) (hfalse.completes.mono fun ts h => ⟨h.1, congrArg Verdict.stay h.2⟩)

theorem expect (token : Token) {f : Unit → Nat → Parse β} (ht : token ∈ fillers)
    (hahead : ∀ ts, ahead (token :: ts)) (h : Guided room Anything behind (f ())) :
    Guided room ahead behind fun room => Parser.expect token.literal >>= fun u => f u room where
  tracks := .expect h
  completes := by
    simp only [expect_eq]
    exact .take token (by simp [Verdict.expected]) ht hahead h.completes

/-- A last token. -/
theorem last (token : Token) (ht : token ∈ fillers) (hahead : ∀ ts, ahead (token :: ts)) (a : α) :
    Guided room ahead behind fun _ => (do Parser.expect token.literal; return a) :=
  .expect token ht hahead (.pure a fun _ _ => trivial)

theorem name {role : NameRole} {f : String → Nat → Parse β}
    (h : ∀ name, Guided room Anything behind (f name)) :
    Guided room Anything behind fun room => expectName role >>= fun name => f name room where
  tracks := .name h
  completes := by
    simp only [expectName_eq]
    exact .take (word "x") rfl (by decide) (fun _ => trivial) (h "x").completes

theorem acceptName {f : Option String → Nat → Parse β}
    (hsome : ∀ name, Guided room Anything behind (f (some name)))
    (hnone : Guided room (fun ts => ahead ts ∧ Verdict.name ts.head? = .stay none) behind (f none)) :
    Guided room ahead behind fun room => Parser.acceptName >>= fun name => f name room where
  tracks := .acceptName hsome hnone.tracks
  completes := by
    simp only [acceptName_eq]
    exact .stay hnone.completes

theorem map {rule : Nat → Parse α} (g : α → β) (h : Guided room ahead behind rule) :
    Guided room ahead behind fun room => g <$> rule room := by
  simp only [map_eq_pure_bind]
  exact h.bind fun a => .pure _ fun _ hts => hts

end Guided

theorem Tracks.map {rule : Nat → Parse α} (g : α → β) (h : Tracks room ahead behind rule) :
    Tracks room ahead behind fun room => g <$> rule room := by
  simp only [map_eq_pure_bind]
  exact h.bind fun a => .pure _ fun _ hts => hts

end Judgments

end ProtoScript.Grammar
