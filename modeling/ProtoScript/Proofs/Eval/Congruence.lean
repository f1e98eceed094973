import ProtoScript.Proofs.Eval.Locality

/-!
# One program in two contexts

The same program is evaluated in two contexts, which may trace calls and make them in different ways.
Between the calls the evaluator only puts steps together, and it does so in the same way in both
contexts. A relation of steps that is kept by every way of putting them together thus relates the two
evaluations of every program, once it relates what the contexts do at a call.
-/

namespace ProtoScript.Eval
variable {α : Type}

/-- The step does the same from any two states with one heap and one present frame, whatever was
written before. -/
structure Oblivious (step : Eval α) : Prop where
  outcome_eq {s t : State} (hheap : s.heap = t.heap) (hscope : s.scope = t.scope) :
    outcome (step s) = outcome (step t)
  heap_eq {s t : State} (hheap : s.heap = t.heap) (hscope : s.scope = t.scope) :
    (finalState (step s)).heap = (finalState (step t)).heap
  scope_eq (s : State) : (finalState (step s)).scope = s.scope
  output_eq {s t : State} (hheap : s.heap = t.heap) (hscope : s.scope = t.scope) :
    ∃ events, (finalState (step s)).output = s.output ++ events ∧
      (finalState (step t)).output = t.output ++ events

namespace Comparison
variable {s t : State}

/-- The comparison of two states on all frames. -/
def everywhere (s t : State) : Comparison where
  left := s
  right := t
  region _ := True
  fresh _ := trivial

theorem alike_everywhere (hheap : s.heap = t.heap) : (everywhere s t).Alike s t where
  heaps := by
    rw [hheap]
    constructor
    · rfl
    · rfl
    · exact ⟨fun _ _ => trivial, fun _ _ _ _ => trivial⟩
    · exact fun _ => rfl
  grown := Nat.le_refl _
  keptLeft h := (h trivial).elim
  keptRight h := (h trivial).elim
  output := ⟨#[], by simp [everywhere]⟩

theorem placed_everywhere (hscope : s.scope = t.scope) : (everywhere s t).Placed s t :=
  ⟨hscope, trivial⟩

/-- Heaps that agree on all frames are equal. -/
theorem eq_of_agree {h k : Heap} {region : FrameId → Prop} (ha : Heap.Agree region h k)
    (hregion : ∀ f, region f) : h = k := by
  have hframes : h.frames = k.frames := Array.ext_getElem? fun f => ha.frames (hregion f)
  have hfunctions := ha.functions
  cases h
  cases k
  cases hframes
  cases hfunctions
  rfl

/-- A step that does the same in every comparison on all frames is oblivious to what was written. -/
theorem oblivious {Q : Comparison → Unit → α → Prop} {step : Eval α}
    (h : ∀ c : Comparison, (∀ f, c.region f) → c.regime.Obeys () (Q c) step) : Oblivious step := by
  have hmatched {s t : State} (hheap : s.heap = t.heap) (hscope : s.scope = t.scope) :=
    h (everywhere s t) (fun _ => trivial) s t (alike_everywhere hheap) fun _ =>
      placed_everywhere hscope
  constructor
  · intro s t hheap hscope
    exact (hmatched hheap hscope).outcome_eq
  · intro s t hheap hscope
    exact eq_of_agree (hmatched hheap hscope).alike.heaps fun _ => trivial
  · intro s
    exact (hmatched (t := s) rfl rfl).scope_eq
  · intro s t hheap hscope
    exact (hmatched hheap hscope).alike.output

end Comparison

/-- A relation of steps that every way of putting steps together keeps. -/
structure Congruence where
  rel {α : Type} (m m' : Eval α) : Prop
  same {α : Type} {step : Eval α} (h : Oblivious step) : rel step step
  bind {α β : Type} {m m' : Eval α} {k k' : α → Eval β} (hm : rel m m')
    (hk : ∀ a, rel (k a) (k' a)) : rel (m >>= k) (m' >>= k')
  blame {α : Type} {m m' : Eval α} (node : Node) (hm : rel m m') :
    rel (Eval.blame node m) (Eval.blame node m')
  within {α : Type} {m m' : Eval α} (frame : FrameId) (hm : rel m m') :
    rel (Eval.within frame m) (Eval.within frame m')

namespace Congruence
variable {K : Congruence} {cx cx' : Context}

open Comparison

/-- A step that obeys every comparison on all frames is related to itself. -/
theorem agreed {Q : Comparison → Unit → α → Prop} {step : Eval α}
    (h : ∀ c : Comparison, (∀ f, c.region f) → c.regime.Obeys () (Q c) step) : K.rel step step :=
  K.same (oblivious h)

theorem pure (a : α) : K.rel (Pure.pure a) (Pure.pure a) :=
  agreed fun _ _ => Discipline.done

theorem throw (fault : Fault) :
    K.rel (MonadExcept.throw fault : Eval α) (MonadExcept.throw fault) :=
  agreed (Q := fun _ _ _ => True) fun _ _ => Agrees.throw fault

theorem raise (cause : Cause) : K.rel (Eval.raise cause : Eval α) (Eval.raise cause) :=
  throw _

theorem raiseAt (node : Node) (cause : Cause) :
    K.rel (Eval.raiseAt node cause : Eval α) (Eval.raiseAt node cause) :=
  throw _

theorem discard {m m' : Eval α} (hm : K.rel m m') :
    K.rel (Functor.discard m) (Functor.discard m') :=
  K.bind hm fun _ => pure ()

/-- The relation holds between the ways in which the contexts trace a call, and between those in which they
make it. -/
structure Calls (K : Congruence) (cx cx' : Context) : Prop where
  trace (kind : StepKind) (callee : String) (values : List Value) :
    K.rel (cx.trace kind callee values) (cx'.trace kind callee values)
  invoke (function : Function) (arguments : List Value) :
    K.rel (cx.invoke function arguments) (cx'.invoke function arguments)

section Steps

theorem rel_expectBool (v : Value) : K.rel (expectBool v) (expectBool v) :=
  agreed fun _ hc => Discipline.obeys_expectBool fun f _ => hc f

theorem rel_expectObject (v : Value) : K.rel (expectObject v) (expectObject v) :=
  agreed fun _ hc => Discipline.obeys_expectObject fun f _ => hc f

theorem rel_openFrame : K.rel openFrame openFrame :=
  agreed fun _ _ => Regime.obeys_openFrame

theorem rel_allocate (parent : Option FrameId) : K.rel (allocate parent) (allocate parent) :=
  agreed (Q := fun _ _ _ => True) fun _ hc => agrees_allocate (fun p _ => hc p) fun _ _ => trivial

theorem rel_defineIn (frame : FrameId) (name : String) (value : Value) :
    K.rel (defineIn frame name value) (defineIn frame name value) :=
  agreed fun c hc => c.regime.defineIn (hc frame) (fun _ _ => trivial) fun f _ => hc f

theorem rel_define (name : String) (value : Value) : K.rel (define name value) (define name value) :=
  agreed fun _ hc => Regime.obeys_define (fun _ _ => trivial) fun f _ => hc f

theorem rel_setMember (o : Object) (name : String) (value : Value) :
    K.rel (setMember o name value) (setMember o name value) :=
  agreed fun c hc => c.regime.setMember (fun f _ => hc f) (fun _ _ => trivial) fun f _ => hc f

theorem rel_bindParameters (frame : FrameId) (parameters : List (String × Value)) :
    K.rel (bindParameters frame parameters) (bindParameters frame parameters) :=
  agreed fun _ hc => Discipline.obeys_bindParameters (hc frame) fun _ _ =>
    ⟨fun _ _ => trivial, fun f _ => hc f⟩

/-- The value of a property is looked up in the object. -/
theorem rel_property (o : Object) (name : String) :
    K.rel (do
      match ← lookup o name with
      | some value => return value
      | none => Eval.raise (.noProperty o.title name)) (do
      match ← lookup o name with
      | some value => return value
      | none => Eval.raise (.noProperty o.title name)) := by
  apply K.bind (agreed fun c hc => c.regime.lookup (fun f _ => hc f) name)
  intro found
  cases found with
  | none => exact raise _
  | some value => exact pure value

theorem rel_forEach {step step' : Value → Eval Completion}
    (hstep : ∀ item, K.rel (step item) (step' item)) (items : List Value) :
    K.rel (forEach step items) (forEach step' items) := by
  induction items with
  | nil => exact pure _
  | cons item rest ih =>
      apply K.bind (hstep item)
      intro completion
      cases completion with
      | normal _ => exact ih
      | returned _ _ => exact pure _

theorem rel_complete (completion : Completion) : K.rel (complete completion) (complete completion) := by
  cases completion with
  | normal value => exact pure value
  | returned value origin => exact raiseAt _ _

end Steps

section Tree

mutual

theorem rel_evalExpr (hcx : K.Calls cx cx') (e : Expr) : K.rel (evalExpr cx e) (evalExpr cx' e) := by
  rw [evalExpr.eq_def, evalExpr.eq_def]
  apply K.blame
  cases e with
  | literal value => exact pure _
  | group inner => exact rel_evalExpr hcx inner
  | binary operator left right =>
      apply K.bind (rel_evalExpr hcx left)
      intro leftValue
      have hbool : K.rel (return Value.bool (← expectBool (← evalExpr cx right)))
          (return Value.bool (← expectBool (← evalExpr cx' right))) := by
        apply K.bind (rel_evalExpr hcx right)
        intro rightValue
        exact K.bind (rel_expectBool rightValue) fun _ => pure _
      split
      · apply K.bind (rel_expectBool leftValue)
        intro holds
        cases holds with
        | true => exact hbool
        | false => exact pure _
      · apply K.bind (rel_expectBool leftValue)
        intro holds
        cases holds with
        | true => exact pure _
        | false => exact hbool
      · next hand hor =>
          apply K.bind (rel_evalExpr hcx right)
          intro rightValue
          have hnode (c : Comparison) : c.regime.node (.expr (.binary operator left right)) := trivial
          exact agreed fun c hc =>
            Discipline.obeys_applyOperator (hnode c) hand hor (fun f _ => hc f) fun f _ => hc f
  | name name =>
      apply K.bind (agreed fun c _ => c.regime.resolve name)
      intro found
      cases found with
      | none => exact raise _
      | some value => exact pure value
  | property receiver name =>
      apply K.bind (rel_evalExpr hcx receiver)
      intro value
      apply K.bind (rel_expectObject value)
      intro o
      exact rel_property o name
  | call name arguments =>
      apply K.bind (agreed fun _ _ => Regime.obeys_calledFunction fun _ _ => trivial)
      intro function
      apply K.bind (rel_evalAll hcx arguments)
      intro values
      exact K.bind (hcx.trace .call name values) fun _ => hcx.invoke function values
  | method receiver name arguments =>
      apply K.bind (rel_evalExpr hcx receiver)
      intro value
      apply K.bind (rel_expectObject value)
      intro o
      apply K.bind (agreed fun _ hc => Discipline.obeys_calledMethod (fun f _ => hc f) fun _ _ => trivial)
      intro function
      apply K.bind (rel_evalAll hcx arguments)
      intro values
      exact K.bind (hcx.trace .method _ values) fun _ => hcx.invoke function _
  | object name fields methods =>
      apply K.bind (rel_allocate none)
      intro frame
      have hmembers : K.rel (declareAll cx fields >>= fun _ => defineFunctions methods)
          (declareAll cx' fields >>= fun _ => defineFunctions methods) :=
        K.bind (rel_declareAll hcx fields) fun _ =>
          agreed fun _ _ => Regime.obeys_defineFunctions fun _ _ => trivial
      apply K.bind (K.within frame hmembers)
      intro _
      cases name with
      | none => exact pure _
      | some name => exact K.bind (rel_define name _) fun _ => pure _

theorem rel_evalAll (hcx : K.Calls cx cx') (es : List Expr) :
    K.rel (evalAll cx es) (evalAll cx' es) := by
  rw [evalAll.eq_def, evalAll.eq_def]
  cases es with
  | nil => exact pure []
  | cons e rest =>
      apply K.bind (rel_evalExpr hcx e)
      intro value
      exact K.bind (rel_evalAll hcx rest) fun _ => pure _

theorem rel_evalOption (hcx : K.Calls cx cx') (e : Option Expr) :
    K.rel (evalOption cx e) (evalOption cx' e) := by
  rw [evalOption.eq_def, evalOption.eq_def]
  cases e with
  | none => exact pure Value.nil
  | some e => exact rel_evalExpr hcx e

theorem rel_declare (hcx : K.Calls cx cx') (d : Declaration) :
    K.rel (declare cx d) (declare cx' d) := by
  rw [declare.eq_def, declare.eq_def]
  obtain ⟨name, value⟩ := d
  apply K.bind (rel_evalOption hcx value)
  intro value
  exact K.bind (rel_define name value) fun _ => pure value

theorem rel_declareAll (hcx : K.Calls cx cx') (ds : List Declaration) :
    K.rel (declareAll cx ds) (declareAll cx' ds) := by
  rw [declareAll.eq_def, declareAll.eq_def]
  cases ds with
  | nil => exact pure ()
  | cons d rest =>
      exact K.bind (discard (K.blame _ (rel_declare hcx d))) fun _ => rel_declareAll hcx rest

end

mutual

theorem rel_execStmt (hcx : K.Calls cx cx') (statement : Stmt) :
    K.rel (execStmt cx statement) (execStmt cx' statement) := by
  rw [execStmt.eq_def, execStmt.eq_def]
  apply K.blame
  cases statement with
  | declare d => exact K.bind (rel_declare hcx d) fun _ => pure _
  | define d => exact K.bind (agreed fun _ _ => Regime.obeys_defineFunction trivial) fun _ => pure _
  | branch condition thenBody elseBody =>
      apply K.bind (rel_evalExpr hcx condition)
      intro value
      apply K.bind (rel_expectBool value)
      intro holds
      cases holds with
      | true =>
          apply K.bind rel_openFrame
          intro frame
          exact K.within frame (rel_execBlock hcx .nil thenBody)
      | false =>
          apply K.bind rel_openFrame
          intro frame
          exact K.within frame (rel_execBlock hcx .nil elseBody)
  | loop name iterable body =>
      apply K.bind (rel_evalExpr hcx iterable)
      intro value
      apply K.bind (agreed fun _ hc => Discipline.obeys_expectList fun f _ => hc f)
      intro items
      refine rel_forEach (fun item => ?_) items
      apply K.bind rel_openFrame
      intro frame
      exact K.bind (rel_defineIn frame name item) fun _ => K.within frame (rel_execBlock hcx .nil body)
  | ret value => exact K.bind (rel_evalOption hcx value) fun _ => pure _
  | perform expression => exact K.bind (rel_evalExpr hcx expression) fun _ => pure _
  | assign target value =>
      apply K.bind (rel_evalExpr hcx value)
      intro result
      have hdone (_ : Unit) : K.rel (return Completion.normal result) (return .normal result) :=
        pure _
      split
      · exact K.bind (agreed fun c hc => c.regime.assign (fun _ _ => trivial) fun f _ => hc f) hdone
      · next receiver name =>
          apply K.bind (rel_evalExpr hcx receiver)
          intro holder
          apply K.bind (rel_expectObject holder)
          intro o
          exact K.bind (rel_setMember o name result) hdone
      · exact K.bind (raise _) hdone

theorem rel_execBlock (hcx : K.Calls cx cx') (last : Value) (statements : List Stmt) :
    K.rel (execBlock cx last statements) (execBlock cx' last statements) := by
  rw [execBlock.eq_def, execBlock.eq_def]
  cases statements with
  | nil => exact pure _
  | cons first rest =>
      apply K.bind (rel_execStmt hcx first)
      intro completion
      cases completion with
      | normal value => exact rel_execBlock hcx value rest
      | returned value origin => exact pure _

end

theorem rel_runStatements (hcx : K.Calls cx cx') (last : Value) (statements : List Stmt) :
    K.rel (runStatements cx last statements) (runStatements cx' last statements) := by
  induction statements generalizing last with
  | nil => exact pure last
  | cons first rest ih =>
      apply K.bind (rel_execStmt hcx first)
      intro completion
      exact K.bind (rel_complete completion) ih

/-- Contexts that are related at every call are related on every program. -/
theorem rel_run (hcx : K.Calls cx cx') (node : Node) : K.rel (run cx node) (run cx' node) := by
  cases node with
  | source statements => exact K.blame _ (rel_runStatements hcx .nil statements)
  | stmt statement => exact K.bind (rel_execStmt hcx statement) rel_complete
  | expr expression => exact rel_evalExpr hcx expression

end Tree

section Calls

theorem rel_callNative (native : Native) (arguments : List Value) :
    K.rel (callNative native arguments) (callNative native arguments) :=
  agreed fun _ hc => Discipline.obeys_callNative native fun _ _ f _ => hc f

theorem rel_runBody (hcx : K.Calls cx cx') (d : Definition) (scope : FrameId)
    (arguments : List Value) :
    K.rel (cx.runBody d scope arguments) (cx'.runBody d scope arguments) := by
  apply K.bind (rel_allocate _)
  intro frame
  apply K.bind (rel_bindParameters frame _)
  intro _
  apply K.bind (K.within frame (rel_execBlock hcx .nil d.body))
  intro completion
  cases completion with
  | normal value => exact pure _
  | returned value origin => exact pure value

/-- Contexts that are related at every call apply each function in related ways. -/
theorem rel_apply (hcx : K.Calls cx cx') (function : Function) (arguments : List Value) :
    K.rel (cx.apply function arguments) (cx'.apply function arguments) := by
  obtain ⟨ident, name, body⟩ := function
  cases body with
  | native native => exact rel_callNative native arguments
  | closure d scope =>
      have hbody := rel_runBody hcx d scope arguments
      simp only [Context.apply]
      split
      · exact K.bind (raiseAt _ _) fun _ => hbody
      · exact hbody

/-- Without depth left, tracing plays no part in a call. -/
theorem rel_invoke_zero (tracing tracing' : Tracing) (function : Function) (arguments : List Value) :
    K.rel (invoke tracing 0 function arguments) (invoke tracing' 0 function arguments) := by
  obtain ⟨ident, name, body⟩ := function
  cases body with
  | native native => exact rel_callNative native arguments
  | closure d scope => exact throw .endless

/-- Two ways of tracing that are related make related contexts, however deep calls may go. -/
theorem calls_upTo {tracing tracing' : Tracing}
    (htrace : ∀ kind callee values,
      K.rel (trace tracing kind callee values) (trace tracing' kind callee values))
    (depth : Nat) : K.Calls (.upTo tracing depth) (.upTo tracing' depth) := by
  induction depth with
  | zero => exact ⟨htrace, rel_invoke_zero tracing tracing'⟩
  | succ depth ih =>
      refine ⟨htrace, fun function arguments => ?_⟩
      change K.rel (invoke tracing (depth + 1) function arguments)
        (invoke tracing' (depth + 1) function arguments)
      rw [invoke_succ, invoke_succ]
      exact rel_apply ih function arguments

end Calls

end Congruence

end ProtoScript.Eval
