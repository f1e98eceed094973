import ProtoScript.Proofs.Eval.Congruence
import ProtoScript.Proofs.Tree.RoundTrip
import ProtoScript.Proofs.Value.Faults

/-!
# What tracing does to a run

To trace a call is to work out the texts of its arguments first. A value without a text, which is an
integer with too many digits or an object that contains itself, thus stops a traced run at the call,
even if the trace would show nothing. As long as every argument of a call has a text, tracing only
observes: the run ends in the same value or error, with the same heap and the same lines of its own, and
a verbose trace adds lines for calls and nothing else. The receiver of a method is not shown, so it needs
no text.
-/

namespace ProtoScript

/-- The line is the program's own. -/
def Event.isConsole : Event → Bool
  | .console _ => true
  | .step _ _ => false

namespace State
variable {s t : State}

/-- The state without the lines of traced calls. -/
def untraced (s : State) : State :=
  { s with output := s.output.filter Event.isConsole }

theorem untraced_eq_iff : s.untraced = t.untraced ↔ s.heap = t.heap ∧ s.scope = t.scope ∧
    s.output.filter Event.isConsole = t.output.filter Event.isConsole := by
  simp [untraced]

theorem untraced_withScope (hst : s.untraced = t.untraced) (frame : FrameId) :
    untraced { s with scope := frame } = untraced { t with scope := frame } := by
  obtain ⟨hheap, -, houtput⟩ := untraced_eq_iff.mp hst
  exact untraced_eq_iff.mpr ⟨hheap, rfl, houtput⟩

end State

namespace Eval
variable {α : Type}

/-- Two results that only the lines of traced calls tell apart. -/
inductive SameButTrace : EStateM.Result Fault State α → EStateM.Result Fault State α → Prop
  | ok {a : α} {s t : State} (hst : s.untraced = t.untraced) : SameButTrace (.ok a s) (.ok a t)
  | error {fault : Fault} {s t : State} (hst : s.untraced = t.untraced) :
      SameButTrace (.error fault s) (.error fault t)

namespace SameButTrace
variable {r r' : EStateM.Result Fault State α}

theorem iff_outcome_state : SameButTrace r r' ↔
    outcome r = outcome r' ∧ (finalState r).untraced = (finalState r').untraced := by
  constructor
  · rintro (hst | hst)
    · exact ⟨rfl, hst⟩
    · exact ⟨rfl, hst⟩
  · rintro ⟨houtcome, hst⟩
    cases r <;> cases r' <;> cases houtcome
    · exact .ok hst
    · exact .error hst

end SameButTrace

/-- Steps that only the lines of traced calls tell apart. -/
def AgreeButTrace (m m' : Eval α) : Prop :=
  ∀ s t : State, s.untraced = t.untraced → SameButTrace (m s) (m' t)

namespace AgreeButTrace
variable {β : Type} {m m' : Eval α}

theorem same {step : Eval α} (h : Oblivious step) : AgreeButTrace step step := by
  intro s t hst
  obtain ⟨hheap, hscope, houtput⟩ := State.untraced_eq_iff.mp hst
  obtain ⟨events, hs, ht⟩ := h.output_eq hheap hscope
  have hstate : (finalState (step s)).untraced = (finalState (step t)).untraced := by
    refine State.untraced_eq_iff.mpr ⟨h.heap_eq hheap hscope, ?_, ?_⟩
    · rw [h.scope_eq, h.scope_eq, hscope]
    · simp [hs, ht, houtput]
  exact SameButTrace.iff_outcome_state.mpr ⟨h.outcome_eq hheap hscope, hstate⟩

theorem bind {k k' : α → Eval β} (hm : AgreeButTrace m m') (hk : ∀ a, AgreeButTrace (k a) (k' a)) :
    AgreeButTrace (m >>= k) (m' >>= k') := by
  intro s t hst
  have hr := hm s t hst
  rw [bind_apply, bind_apply]
  generalize m s = r at hr ⊢
  generalize m' t = r' at hr ⊢
  cases hr with
  | ok hst => exact hk _ _ _ hst
  | error hst => exact .error hst

theorem blame (node : Node) (hm : AgreeButTrace m m') :
    AgreeButTrace (Eval.blame node m) (Eval.blame node m') := by
  intro s t hst
  have hr := hm s t hst
  unfold Eval.blame
  generalize m s = r at hr ⊢
  generalize m' t = r' at hr ⊢
  cases hr with
  | ok hst => exact .ok hst
  | error hst => exact .error hst

theorem within (frame : FrameId) (hm : AgreeButTrace m m') :
    AgreeButTrace (Eval.within frame m) (Eval.within frame m') := by
  intro s t hst
  obtain ⟨-, hscope, -⟩ := State.untraced_eq_iff.mp hst
  have hr := hm _ _ (State.untraced_withScope hst frame)
  unfold Eval.within
  rw [hscope]
  generalize m { s with scope := frame } = r at hr ⊢
  generalize m' { t with scope := frame } = r' at hr ⊢
  cases hr with
  | ok hst => exact .ok (State.untraced_withScope hst t.scope)
  | error hst => exact .error (State.untraced_withScope hst t.scope)

end AgreeButTrace

/-- The relation of steps that only the lines of traced calls tell apart. -/
def Congruence.exceptTrace : Congruence where
  rel := AgreeButTrace
  same := .same
  bind := .bind
  blame := .blame
  within := .within

/-- The result is the plain one, or a fault stopped the run early. What the run had written by then, the
plain run writes, too. -/
inductive Follows (stops : Fault → Prop) (plain : EStateM.Result Fault State α) :
    EStateM.Result Fault State α → Prop
  | same : Follows stops plain plain
  | stopped {fault : Fault} {t : State} (hfault : stops fault)
      (hwritten : t.output.toList <+: (finalState plain).output.toList) :
      Follows stops plain (.error fault t)

/-- A run that is not stopped by the fault is the plain one. -/
theorem Follows.eq_of_ne {stop : Fault} {plain watched : EStateM.Result Fault State α}
    (h : Follows (· = stop) plain watched) (hne : outcome watched ≠ .error stop) : watched = plain := by
  cases h with
  | same => rfl
  | stopped hfault _ => exact (hne (congrArg Except.error hfault)).elim

/-- The second step follows the first, which only adds to what was written. -/
structure Watches (stops : Fault → Prop) (m m' : Eval α) : Prop where
  grows (s : State) : s.output.toList <+: (finalState (m s)).output.toList
  follows (s : State) : Follows stops (m s) (m' s)

namespace Watches
variable {β : Type} {stops : Fault → Prop} {m m' : Eval α}

theorem same {step : Eval α} (h : Oblivious step) : Watches stops step step := by
  constructor
  · intro s
    obtain ⟨events, hs, -⟩ := h.output_eq (rfl : s.heap = s.heap) rfl
    rw [hs, Array.toList_append]
    exact List.prefix_append _ _
  · exact fun _ => .same

theorem bind {k k' : α → Eval β} (hm : Watches stops m m') (hk : ∀ a, Watches stops (k a) (k' a)) :
    Watches stops (m >>= k) (m' >>= k') := by
  constructor
  · intro s
    have hfirst := hm.grows s
    rw [bind_apply]
    generalize m s = r at hfirst ⊢
    cases r with
    | ok a t => exact hfirst.trans ((hk a).grows t)
    | error fault t => exact hfirst
  · intro s
    have hr := hm.follows s
    rw [bind_apply, bind_apply]
    generalize m s = r at hr ⊢
    generalize m' s = r' at hr ⊢
    cases hr with
    | same =>
        cases r with
        | ok a t => exact (hk a).follows t
        | error fault t => exact .same
    | stopped hfault hwritten =>
        -- The plain run goes on behind the stop, and keeps what was written before it.
        cases r with
        | ok a t => exact .stopped hfault (hwritten.trans ((hk a).grows t))
        | error fault t => exact .stopped hfault hwritten

theorem blame (hstops : ∀ fault, stops fault → ∀ node, blamed node fault = fault) (node : Node)
    (hm : Watches stops m m') : Watches stops (Eval.blame node m) (Eval.blame node m') := by
  constructor
  · intro s
    have hgrows := hm.grows s
    unfold Eval.blame
    cases hr : m s <;> rw [hr] at hgrows <;> exact hgrows
  · intro s
    have hr := hm.follows s
    unfold Eval.blame
    generalize m s = r at hr ⊢
    generalize m' s = r' at hr ⊢
    cases hr with
    | same => cases r <;> exact .same
    | stopped hfault hwritten =>
        simp only [hstops _ hfault]
        cases r <;> exact .stopped hfault hwritten

theorem within (frame : FrameId) (hm : Watches stops m m') :
    Watches stops (Eval.within frame m) (Eval.within frame m') := by
  constructor
  · intro s
    have hgrows := hm.grows { s with scope := frame }
    unfold Eval.within
    cases hr : m { s with scope := frame } <;> rw [hr] at hgrows <;> exact hgrows
  · intro s
    have hr := hm.follows { s with scope := frame }
    unfold Eval.within
    generalize m { s with scope := frame } = r at hr ⊢
    generalize m' { s with scope := frame } = r' at hr ⊢
    cases hr with
    | same => cases r <;> exact .same
    | stopped hfault hwritten => cases r <;> exact .stopped hfault hwritten

end Watches

/-- The relation of steps that follow plain ones, up to faults that no node is to blame for. -/
def Congruence.upToFault (stops : Fault → Prop)
    (hstops : ∀ fault, stops fault → ∀ node, blamed node fault = fault) : Congruence where
  rel := Watches stops
  same := .same
  bind := .bind
  blame := .blame hstops
  within := .within

section Texts

/-- The fault of a value without a text. -/
def Unshowable (fault : Fault) : Prop :=
  fault = .breakdown .digitLimit ∨ fault = .endless

theorem Unshowable.blamed {fault : Fault} (h : Unshowable fault) (node : Node) :
    Eval.blamed node fault = fault := by
  obtain rfl | rfl := h
  · rfl
  · rfl

/-- The texts of several values depend on the heap alone. -/
theorem displayAll_apply (values : List Value) (s : State) :
    values.mapM display s = ofExcept (values.mapM (ProtoScript.display s.heap)) s := by
  induction values with
  | nil => rfl
  | cons v rest ih =>
      have hv : display v s = ofExcept (ProtoScript.display s.heap v) s := rfl
      rw [List.mapM_cons, List.mapM_cons, bind_apply, hv]
      cases ProtoScript.display s.heap v with
      | error fault => rfl
      | ok text =>
          change (rest.mapM display >>= fun texts => pure (text :: texts)) s = _
          rw [bind_apply, ih]
          cases rest.mapM (ProtoScript.display s.heap) <;> rfl

/-- The value has a text. -/
def shown (h : Heap) (v : Value) : Bool :=
  (ProtoScript.display h v).isOk

theorem all_shown_iff {h : Heap} {values : List Value} :
    values.all (shown h) = true ↔ ∃ texts, values.mapM (ProtoScript.display h) = .ok texts := by
  induction values with
  | nil => exact ⟨fun _ => ⟨[], rfl⟩, fun _ => rfl⟩
  | cons v rest ih =>
      rw [List.all_cons, Bool.and_eq_true, ih, shown, List.mapM_cons]
      cases ProtoScript.display h v with
      | error fault => simp [Except.isOk, Except.toBool, Bind.bind, Except.bind]
      | ok text =>
          cases rest.mapM (ProtoScript.display h) with
          | error fault => simp [Bind.bind, Except.bind]
          | ok texts => simp [Except.isOk, Except.toBool, Bind.bind, Except.bind, Pure.pure, Except.pure]

end Texts

section Traces
variable (kind : StepKind) (callee : String) (values : List Value)

theorem trace_off (s : State) : trace .off kind callee values s = .ok () s :=
  rfl

/-- A silent trace does nothing if the arguments have texts, and stops the run otherwise. -/
theorem trace_silent (s : State) :
    trace .silent kind callee values s =
      ofExcept (Functor.discard (values.mapM (ProtoScript.display s.heap))) s := by
  change (values.mapM display >>= fun _ => pure ()) s = _
  rw [bind_apply, displayAll_apply]
  cases values.mapM (ProtoScript.display s.heap) <;> rfl

theorem trace_verbose (s : State) :
    trace .verbose kind callee values s =
      (ofExcept (values.mapM (ProtoScript.display s.heap)) >>= fun texts =>
        write (.step kind (callee ++ "(" ++ ", ".intercalate texts ++ ")"))) s := by
  change (values.mapM display >>= fun texts =>
    write (.step kind (callee ++ "(" ++ ", ".intercalate texts ++ ")"))) s = _
  rw [bind_apply, bind_apply, displayAll_apply]

/-- A silent trace follows no trace, up to the fault of an argument without a text. -/
theorem watches_trace_silent :
    Watches Unshowable (trace .off kind callee values) (trace .silent kind callee values) := by
  constructor
  · exact fun s => List.prefix_rfl
  · intro s
    rw [trace_off, trace_silent]
    have hfails : FailsOnly Unshowable (values.mapM (ProtoScript.display s.heap)) :=
      .mapM (display_failsOnly (.inl rfl) (.inr rfl) s.heap) values
    cases hd : values.mapM (ProtoScript.display s.heap) with
    | ok texts => exact .same
    | error fault => exact .stopped (hfails fault hd) List.prefix_rfl

/-- A verbose trace fails like a silent one, and differs from it in the line it writes. -/
theorem agreeButTrace_trace :
    AgreeButTrace (trace .verbose kind callee values) (trace .silent kind callee values) := by
  intro s t hst
  obtain ⟨hheap, hscope, houtput⟩ := State.untraced_eq_iff.mp hst
  rw [trace_verbose, trace_silent, bind_apply, hheap]
  cases values.mapM (ProtoScript.display t.heap) with
  | error fault => exact .error hst
  | ok texts =>
      refine .ok (State.untraced_eq_iff.mpr ⟨hheap, hscope, ?_⟩)
      simp [Event.isConsole, houtput]

end Traces

section Checks

/-- The fault that stops a checked run at a call whose trace would show a value without a text. -/
def unshown : Fault :=
  .breakdown (.host "unshown" "")

/-- Fails unless all values have texts. -/
def requireShown (values : List Value) : Eval Unit := do
  unless values.all (shown (← get).heap) do
    throw unshown

/-- Calls a function, with at most `depth` calls of user functions inside each other. Calls in its body are
checked and not traced. -/
def invokeShown : (depth : Nat) → Function → List Value → Eval Value
  | 0 => invoke .off 0
  | depth + 1 => Context.apply { trace := fun _ _ => requireShown, invoke := invokeShown depth }

/-- The context of the plain run that stops at a call whose trace would show a value without a text. -/
def Context.shown (depth : Nat) : Context :=
  { trace := fun _ _ => requireShown, invoke := invokeShown depth }

theorem requireShown_apply (values : List Value) (s : State) :
    requireShown values s = if values.all (shown s.heap) = true then .ok () s else .error unshown s := by
  change (if values.all (shown s.heap) = true then pure () else throw unshown : Eval Unit) s = _
  split <;> rfl

theorem blamed_unshown {fault : Fault} (h : fault = unshown) (node : Node) :
    blamed node fault = fault := by
  rw [h]
  rfl

/-- If the check is related to the trace, the checked context is related to the traced one, however deep
calls may go. -/
theorem Congruence.calls_shown {K : Congruence} {tracing : Tracing}
    (hcheck : ∀ kind callee values, K.rel (trace tracing kind callee values) (requireShown values))
    (depth : Nat) : K.Calls (.upTo tracing depth) (.shown depth) := by
  induction depth with
  | zero => exact ⟨hcheck, rel_invoke_zero tracing .off⟩
  | succ depth ih =>
      refine ⟨hcheck, fun function arguments => ?_⟩
      change K.rel (invoke tracing (depth + 1) function arguments)
        ((Context.shown depth).apply function arguments)
      rw [invoke_succ]
      exact rel_apply ih function arguments

/-- A check follows no trace, up to its own fault. -/
theorem watches_requireShown (kind : StepKind) (callee : String) (values : List Value) :
    Watches (· = unshown) (trace .off kind callee values) (requireShown values) := by
  constructor
  · exact fun s => List.prefix_rfl
  · intro s
    rw [trace_off, requireShown_apply]
    split
    · exact .same
    · exact .stopped rfl List.prefix_rfl

/-- Two results that are the same, or the fault of a value without a text and a failed check. -/
inductive StopsAlike : EStateM.Result Fault State α → EStateM.Result Fault State α → Prop
  | same (r : EStateM.Result Fault State α) : StopsAlike r r
  | stopped {fault : Fault} (hfault : Unshowable fault) (t : State) :
      StopsAlike (.error fault t) (.error unshown t)

theorem StopsAlike.eq_of_ne {silent checked : EStateM.Result Fault State α} (h : StopsAlike silent checked)
    (hne : outcome checked ≠ .error unshown) : checked = silent := by
  cases h with
  | same => rfl
  | stopped => exact (hne rfl).elim

/-- Steps that stop at the same values without a text. -/
def Congruence.stopsAlike : Congruence where
  rel m m' := ∀ s, StopsAlike (m s) (m' s)
  same _ _ := .same _
  bind {_ _ m m' k k'} hm hk := by
    intro s
    have hr := hm s
    rw [bind_apply, bind_apply]
    generalize m s = r at hr ⊢
    generalize m' s = r' at hr ⊢
    cases hr with
    | same =>
        cases r with
        | ok a t => exact hk a t
        | error fault t => exact .same _
    | stopped hfault t => exact .stopped hfault t
  blame {_ m m'} node hm := by
    intro s
    have hr := hm s
    unfold Eval.blame
    generalize m s = r at hr ⊢
    generalize m' s = r' at hr ⊢
    cases hr with
    | same => exact .same _
    | stopped hfault t =>
        simp only [hfault.blamed node, blamed_unshown rfl node]
        exact .stopped hfault t
  within {_ m m'} frame hm := by
    intro s
    have hr := hm { s with scope := frame }
    unfold Eval.within
    generalize m { s with scope := frame } = r at hr ⊢
    generalize m' { s with scope := frame } = r' at hr ⊢
    cases hr with
    | same => exact .same _
    | stopped hfault t => exact .stopped hfault { t with scope := s.scope }

/-- Arguments pass the check exactly if they can be traced in silence. -/
theorem stopsAlike_requireShown (kind : StepKind) (callee : String) (values : List Value) (s : State) :
    StopsAlike (trace .silent kind callee values s) (requireShown values s) := by
  have hfails : FailsOnly Unshowable (values.mapM (ProtoScript.display s.heap)) :=
    .mapM (display_failsOnly (.inl rfl) (.inr rfl) s.heap) values
  rw [trace_silent, requireShown_apply]
  cases hd : values.mapM (ProtoScript.display s.heap) with
  | ok texts =>
      rw [if_pos (all_shown_iff.mpr ⟨texts, hd⟩)]
      exact .same _
  | error fault =>
      rw [if_neg fun hall => ?_]
      · exact .stopped (hfails fault hd) s
      · obtain ⟨texts, htexts⟩ := all_shown_iff.mp hall
        rw [hd] at htexts
        cases htexts

end Checks

section Runs
variable (depth : Nat) (node : Node)

/-- A silent run is the plain one, or the fault of an argument without a text stopped it. -/
theorem watches_run_silent :
    Watches Unshowable (run (.upTo .off depth) node) (run (.upTo .silent depth) node) :=
  Congruence.rel_run (K := .upToFault Unshowable fun _ => Unshowable.blamed)
    (Congruence.calls_upTo watches_trace_silent depth) node

/-- A verbose run and a silent one differ in the lines of the calls alone. -/
theorem agreeButTrace_run :
    AgreeButTrace (run (.upTo .verbose depth) node) (run (.upTo .silent depth) node) :=
  Congruence.rel_run (K := .exceptTrace) (Congruence.calls_upTo agreeButTrace_trace depth) node

/-- A checked run is the plain one, up to a call whose trace would show a value without a text. -/
theorem watches_run_shown :
    Watches (· = unshown) (run (.upTo .off depth) node) (run (.shown depth) node) :=
  Congruence.rel_run (K := .upToFault (· = unshown) fun _ => blamed_unshown)
    (Congruence.calls_shown watches_requireShown depth) node

/-- A checked run stops where the fault of an argument without a text stops a silent one. -/
theorem stopsAlike_run (s : State) :
    StopsAlike (run (.upTo .silent depth) node s) (run (.shown depth) node s) :=
  Congruence.rel_run (K := .stopsAlike) (Congruence.calls_shown stopsAlike_requireShown depth) node s

end Runs

/-- Tracing only observes a run at whose calls all arguments have texts: in silence it does nothing at all,
and a verbose trace adds the lines of the calls. The condition is told by the checked run, which is the
plain one up to the first call that has an argument without a text; the receiver of a method is not one of
its arguments. There, and nowhere else, the fault of the argument stops a silent run. In any case a silent
run is at worst stopped early by such a fault, and a verbose trace differs from a silent one in the lines of
the calls alone. -/
theorem tracing_only_observes (depth : Nat) (node : Node) (s : State) :
    let plain := run (.upTo .off depth) node s
    let silent := run (.upTo .silent depth) node s
    let verbose := run (.upTo .verbose depth) node s
    let checked := run (.shown depth) node s
    (outcome checked ≠ .error unshown → silent = plain ∧ SameButTrace verbose plain) ∧
    Follows (· = unshown) plain checked ∧
    StopsAlike silent checked ∧
    Follows Unshowable plain silent ∧
    SameButTrace verbose silent := by
  intro plain silent verbose checked
  have hsilent : Follows Unshowable plain silent := (watches_run_silent depth node).follows s
  have hverbose : SameButTrace verbose silent := agreeButTrace_run depth node s s rfl
  have hplain : Follows (· = unshown) plain checked := (watches_run_shown depth node).follows s
  have halike : StopsAlike silent checked := stopsAlike_run depth node s
  refine ⟨?_, hplain, halike, hsilent, hverbose⟩
  intro hshown
  have hsame : silent = plain := (halike.eq_of_ne hshown).symm.trans (hplain.eq_of_ne hshown)
  exact ⟨hsame, hsame ▸ hverbose⟩

section Holder

/-- A program that puts an object into a list that the object holds, and compares something with 1. -/
def holder (compared : Expr) : Node :=
  .source [
    .declare { name := "o", value := some (.object none [] []) },
    .assign (.property (.name "o") "items") (.call "list" [.name "o"]),
    .perform (.binary .equal compared (.literal (.int 1)))]

/-- As long as the object is not passed again, tracing only observes. -/
theorem tracing_only_observes_holder :
    let node := holder (.property (.name "o") "items")
    outcome (run (.shown maxDepth) node .initial) ≠ .error unshown ∧
    run (.upTo .silent maxDepth) node .initial = run (.upTo .off maxDepth) node .initial ∧
    SameButTrace (run (.upTo .verbose maxDepth) node .initial)
      (run (.upTo .off maxDepth) node .initial) := by
  intro node
  have hvalue : outcome (run (.shown maxDepth) node .initial) = .ok (.bool false) := rfl
  have hshown : outcome (run (.shown maxDepth) node .initial) ≠ .error unshown := by
    rw [hvalue]
    intro h
    cases h
  exact ⟨hshown, (tracing_only_observes maxDepth node .initial).1 hshown⟩

/-- A trace that shows nothing stops a run that has a value without it. -/
theorem silent_trace_stops_holder :
    let node := holder (.call "list" [.name "o"])
    Grammar.Yields .source "LET o = OBJECT DO END; o.items = list(o); list(o) == 1;" node ∧
    outcome (run (.upTo .off maxDepth) node .initial) = .ok (.bool false) ∧
    outcome (run (.upTo .silent maxDepth) node .initial) = .error .endless :=
  ⟨⟨rfl, rfl⟩, rfl, rfl⟩

end Holder

end Eval

end ProtoScript
