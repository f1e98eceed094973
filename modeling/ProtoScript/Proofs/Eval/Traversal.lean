import ProtoScript.Proofs.Eval.Discipline

/-!
# Every run obeys a discipline

A regime is a discipline that also has rules for the steps that ask for the present frame. Here is the
evaluator, case by case along the tree, for any regime. Calls leave the tree, so the induction on trees takes
it as given that calls obey; an induction on the depth of calls then discharges that.
-/

namespace ProtoScript

/-- A discipline with rules for the present frame. -/
structure Regime extends Discipline where
  scope {w : World} : Obeys w frame (State.scope <$> get)
  resolve {w : World} (name : String) :
    Obeys w (fun x found => ∀ v ∈ found, value x v) (Eval.resolve name)
  assign {w : World} {name : String} {v : Value} (hn : toAlphabet.Spells name) (hv : value w v) :
    Obeys w (fun _ _ => True) (Eval.assign name v)

namespace Regime
open Eval Discipline ProtoScript.Text ProtoScript.Text.Alphabet
variable {D : Regime} {w x : D.World}

/-- The completion carries a value that may come up, and a RETURN that may be blamed. -/
def Completes (D : Regime) (w : D.World) : Completion → Prop
  | .normal v => D.value w v
  | .returned v origin => D.value w v ∧ D.node (.stmt origin)

theorem completes_later (w x : D.World) (completion : Completion) (h : D.Before w x)
    (hc : D.Completes w completion) : D.Completes x completion := by
  cases completion with
  | normal v => exact D.value_later h hc
  | returned v origin => exact ⟨D.value_later h hc.1, hc.2⟩

theorem obeys_return {completion : Completion} (hc : D.Completes w completion) :
    D.Obeys w D.Completes (Pure.pure completion) :=
  D.pure fun _ h => completes_later _ _ _ h hc

theorem obeys_forEach {step : Value → Eval Completion} {items : List Value}
    (hstep : ∀ x, D.Before w x → ∀ item ∈ items, D.Obeys x D.Completes (step item)) :
    D.Obeys w D.Completes (forEach step items) := by
  induction items generalizing w with
  | nil => exact D.pure fun _ _ => value_nil
  | cons item rest ih =>
      apply D.bind (hstep w (D.refl w) item List.mem_cons_self)
      intro x completion hx hc
      cases completion with
      | normal v => exact ih fun y hy item hi => hstep y (D.trans hx hy) item (List.mem_cons_of_mem _ hi)
      | returned v origin => exact obeys_return hc

theorem obeys_openFrame : D.Obeys w D.frame openFrame :=
  D.bind (m := State.scope <$> get) D.scope fun _ _ _ hf => D.allocate hf

theorem obeys_define {name : String} {v : Value} (hn : D.Spells name) (hv : D.value w v) :
    D.Obeys w (fun _ _ => True) (define name v) :=
  D.bind (m := State.scope <$> get) D.scope fun _ _ hx hf => D.defineIn hf hn (D.value_later hx hv)

theorem obeys_defineFunction {d : Definition} (hd : D.node (.stmt (.define d))) :
    D.Obeys w D.value (defineFunction d) := by
  have hname : D.Spells d.name := D.word hd List.mem_cons_self
  change D.Obeys w _ (State.scope <$> get >>= fun scope => do
    let function ← Eval.createFunction d.name (.closure d scope)
    define d.name (.function function)
    return Value.function function)
  apply D.bind D.scope
  intro _ scope _ hscope
  apply D.bind (D.createFunction hd hscope)
  intro _ function _ hf
  exact D.bind (obeys_define hname hf) fun _ _ hx _ => give (D.value_later hx hf)

theorem obeys_defineFunctions {definitions : List Definition}
    (hds : ∀ d ∈ definitions, D.node (.stmt (.define d))) :
    D.Obeys w (fun _ _ => True) (defineFunctions definitions) := by
  induction definitions generalizing w with
  | nil => exact done
  | cons d rest ih =>
      obtain ⟨hd, hrest⟩ := List.forall_mem_cons.mp hds
      apply D.bind (discard (D.blame hd (obeys_defineFunction hd)))
      intro _ _ _ _
      exact ih hrest

theorem obeys_calledFunction {name : String} (hn : D.Spells name) :
    D.Obeys w (fun x function => D.value x (.function function)) (calledFunction name) := by
  apply D.bind (D.resolve name)
  intro _ found _ hfound
  split
  · exact D.pure fun _ hx => D.value_later hx (hfound _ rfl)
  · exact D.raise trivial (by simpa [Cause.words] using hn)
  · exact D.raise trivial (by simpa [Cause.words] using hn)

theorem value_ofLiteral {literal : Literal} (hl : ∀ word ∈ literal.words, D.Spells word) :
    D.value w (.ofLiteral literal) := by
  cases literal with
  | character text => exact (D.value_text (hl text List.mem_cons_self)).1
  | string text => exact (D.value_text (hl text List.mem_cons_self)).2
  | nil | bool | int | decimal => exact D.value_bare trivial

/-- Calls of the context are traced and made as the regime says. -/
structure Serves (D : Regime) (cx : Context) : Prop where
  trace {w : D.World} (kind : StepKind) {callee : String} (hc : D.Spells callee) {values : List Value}
    (hvs : ∀ v ∈ values, D.value w v) : D.Obeys w (fun _ _ => True) (cx.trace kind callee values)
  invoke {w : D.World} {function : Function} (hf : D.value w (.function function)) {values : List Value}
    (hvs : ∀ v ∈ values, D.value w v) : D.Obeys w D.value (cx.invoke function values)

section Tree
variable {cx : Context}

mutual

theorem obeys_evalExpr {w : D.World} (hcx : D.Serves cx) (e : Expr) (he : D.node (.expr e)) :
    D.Obeys w D.value (evalExpr cx e) := by
  rw [evalExpr.eq_def]
  refine D.blame he ?_
  cases e with
  | literal value => exact give (value_ofLiteral fun word hw => D.word he hw)
  | group inner => exact obeys_evalExpr hcx inner (D.part he List.mem_cons_self)
  | binary operator left right =>
      have hright (x : D.World) : D.Obeys x D.value (evalExpr cx right) :=
        obeys_evalExpr hcx right (D.part he (List.mem_cons_of_mem _ List.mem_cons_self))
      have hbool (x : D.World) : D.Obeys x D.value
          (return .bool (← expectBool (← evalExpr cx right))) := by
        apply D.bind (hright x)
        intro _ rightValue _ hr
        exact D.bind (obeys_expectBool hr) fun _ _ _ _ => giveBare trivial
      apply D.bind (obeys_evalExpr hcx left (D.part he List.mem_cons_self))
      intro x leftValue hx hl
      split
      · apply D.bind (obeys_expectBool hl)
        intro y holds hy _
        exact obeys_ite (hbool y) (give (D.value_later hy hl))
      · apply D.bind (obeys_expectBool hl)
        intro y holds hy _
        exact obeys_ite (give (D.value_later hy hl)) (hbool y)
      · next hand hor =>
          apply D.bind (hright x)
          intro y rightValue hy hr
          exact obeys_applyOperator he hand hor (D.value_later hy hl) hr
  | name name =>
      have hname : D.Spells name := D.word he List.mem_cons_self
      apply D.bind (D.resolve name)
      intro _ found _ hfound
      cases found with
      | none => exact D.raise trivial (by simpa [Cause.words] using hname)
      | some value => exact give (hfound value rfl)
  | property receiver name =>
      apply D.bind (obeys_evalExpr hcx receiver (D.part he List.mem_cons_self))
      intro _ value _ hv
      apply D.bind (obeys_expectObject hv)
      intro x o _ ho
      change D.Obeys x _ (lookup o name >>= fun found =>
        match found with
        | some value => return value
        | none => Eval.raise (.noProperty o.title name))
      apply D.bind (D.lookup ho name)
      intro _ found hx hfound
      cases found with
      | none => exact D.noProperty (D.value_later hx ho) (D.word he List.mem_cons_self)
      | some value => exact give (hfound value rfl)
  | call name arguments =>
      have hname : D.Spells name := D.word he List.mem_cons_self
      apply D.bind (obeys_calledFunction hname)
      intro _ function _ hf
      apply D.bind (obeys_evalAll hcx arguments fun e hm => D.part he (List.mem_map_of_mem hm))
      intro _ values hx hvs
      apply D.bind (hcx.trace .call hname hvs)
      intro _ _ hy _
      exact hcx.invoke (D.value_later (D.trans hx hy) hf) (values_later hy hvs)
  | method receiver name arguments =>
      have hname : D.Spells name := D.word he List.mem_cons_self
      apply D.bind (obeys_evalExpr hcx receiver (D.part he List.mem_cons_self))
      intro _ value _ hv
      apply D.bind (obeys_expectObject hv)
      intro _ o _ ho
      apply D.bind (obeys_calledMethod ho hname)
      intro _ function hx hf
      apply D.bind (obeys_evalAll hcx arguments fun e hm =>
        D.part he (List.mem_cons_of_mem _ (List.mem_map_of_mem hm)))
      intro _ values hy hvs
      have hcallee : D.Spells (o.title ++ "." ++ name) :=
        ((D.title ho).append (spells_word (by decide))).append hname
      apply D.bind (hcx.trace .method hcallee hvs)
      intro _ _ hz _
      refine hcx.invoke (D.value_later (D.trans hy hz) hf) (List.forall_mem_cons.mpr ⟨?_, ?_⟩)
      · exact D.value_later (D.trans hx (D.trans hy hz)) ho
      · exact values_later hz hvs
  | object name fields methods =>
      have hfields : ∀ d ∈ fields, D.node (.stmt (.declare d)) := fun d hd =>
        D.part he (List.mem_append_left _ (List.mem_map_of_mem (f := fun d => Node.stmt (.declare d)) hd))
      have hmethods : ∀ d ∈ methods, D.node (.stmt (.define d)) := fun d hd =>
        D.part he (List.mem_append_right _ (List.mem_map_of_mem (f := fun d => Node.stmt (.define d)) hd))
      apply D.bind (D.createObject he)
      intro x frame _ hframe
      have hmembers : D.Obeys x (fun _ _ => True) (do
          declareAll cx fields
          defineFunctions methods) :=
        D.bind (obeys_declareAll hcx fields hfields) fun _ _ _ _ => obeys_defineFunctions hmethods
      apply D.bind (D.within (fun _ _ _ _ _ => trivial) hframe.1 hmembers)
      intro _ _ hy _
      have hvalue := D.value_later hy hframe.2
      cases name with
      | none => exact give hvalue
      | some name =>
          have hname : D.Spells name := D.word he List.mem_cons_self
          exact D.bind (obeys_define hname hvalue) fun _ _ hz _ => give (D.value_later hz hvalue)

theorem obeys_evalAll {w : D.World} (hcx : D.Serves cx) (es : List Expr)
    (hes : ∀ e ∈ es, D.node (.expr e)) :
    D.Obeys w (fun x values => ∀ v ∈ values, D.value x v) (evalAll cx es) := by
  rw [evalAll.eq_def]
  cases es with
  | nil => exact D.pure fun _ _ => by simp
  | cons e rest =>
      obtain ⟨he, hrest⟩ := List.forall_mem_cons.mp hes
      apply D.bind (obeys_evalExpr hcx e he)
      intro _ value _ hv
      apply D.bind (obeys_evalAll hcx rest hrest)
      intro _ values hx hvs
      exact D.pure fun _ hy =>
        List.forall_mem_cons.mpr ⟨D.value_later (D.trans hx hy) hv, values_later hy hvs⟩

theorem obeys_evalOption {w : D.World} (hcx : D.Serves cx) (e : Option Expr)
    (he : ∀ e' ∈ e, D.node (.expr e')) : D.Obeys w D.value (evalOption cx e) := by
  rw [evalOption.eq_def]
  cases e with
  | none => exact giveBare trivial
  | some e => exact obeys_evalExpr hcx e (he e rfl)

theorem obeys_declare {w : D.World} (hcx : D.Serves cx) (d : Declaration)
    (hd : D.node (.stmt (.declare d))) : D.Obeys w D.value (declare cx d) := by
  rw [declare.eq_def]
  obtain ⟨name, value⟩ := d
  have hname : D.Spells name := D.word hd List.mem_cons_self
  have hvalue : ∀ e ∈ value, D.node (.expr e) := fun e he =>
    D.part hd (List.mem_map_of_mem (Option.mem_toList.mpr he))
  apply D.bind (obeys_evalOption hcx value hvalue)
  intro _ result _ hr
  exact D.bind (obeys_define hname hr) fun _ _ hx _ => give (D.value_later hx hr)

theorem obeys_declareAll {w : D.World} (hcx : D.Serves cx) (ds : List Declaration)
    (hds : ∀ d ∈ ds, D.node (.stmt (.declare d))) :
    D.Obeys w (fun _ _ => True) (declareAll cx ds) := by
  rw [declareAll.eq_def]
  cases ds with
  | nil => exact done
  | cons d rest =>
      obtain ⟨hd, hrest⟩ := List.forall_mem_cons.mp hds
      apply D.bind (discard (D.blame hd (obeys_declare hcx d hd)))
      intro _ _ _ _
      exact obeys_declareAll hcx rest hrest

end

mutual

theorem obeys_execStmt {w : D.World} (hcx : D.Serves cx) (statement : Stmt)
    (hs : D.node (.stmt statement)) : D.Obeys w D.Completes (execStmt cx statement) := by
  rw [execStmt.eq_def]
  refine D.blame hs ?_
  cases statement with
  | declare d => exact D.bind (obeys_declare hcx d hs) fun _ _ _ hv => obeys_return hv
  | define d => exact D.bind (obeys_defineFunction hs) fun _ _ _ hv => obeys_return hv
  | branch condition thenBody elseBody =>
      have hbodies : ∀ body ∈ thenBody ++ elseBody, D.node (.stmt body) := fun body hb =>
        D.part hs (List.mem_cons_of_mem _ (List.mem_map_of_mem hb))
      obtain ⟨hthen, helse⟩ := List.forall_mem_append.mp hbodies
      apply D.bind (obeys_evalExpr hcx condition (D.part hs List.mem_cons_self))
      intro _ value _ hv
      apply D.bind (obeys_expectBool hv)
      intro _ holds _ _
      refine obeys_ite ?_ ?_
      · apply D.bind obeys_openFrame
        intro _ frame _ hf
        exact D.within completes_later hf (obeys_execBlock hcx value_nil thenBody hthen)
      · apply D.bind obeys_openFrame
        intro _ frame _ hf
        exact D.within completes_later hf (obeys_execBlock hcx value_nil elseBody helse)
  | loop name iterable body =>
      have hname : D.Spells name := D.word hs List.mem_cons_self
      have hbody : ∀ statement ∈ body, D.node (.stmt statement) := fun statement hb =>
        D.part hs (List.mem_cons_of_mem _ (List.mem_map_of_mem hb))
      apply D.bind (obeys_evalExpr hcx iterable (D.part hs List.mem_cons_self))
      intro _ value _ hv
      apply D.bind (obeys_expectList hv)
      intro _ items _ hitems
      refine obeys_forEach fun x hx item hi => ?_
      apply D.bind obeys_openFrame
      intro _ frame hy hf
      apply D.bind (D.defineIn hf hname (D.value_later (D.trans hx hy) (hitems item hi)))
      intro _ _ hz _
      refine D.within completes_later (D.frame_later hz hf) ?_
      exact obeys_execBlock hcx value_nil body hbody
  | ret value =>
      have hvalue : ∀ e ∈ value, D.node (.expr e) := fun e he =>
        D.part hs (List.mem_map_of_mem (Option.mem_toList.mpr he))
      exact D.bind (obeys_evalOption hcx value hvalue) fun _ _ _ hv => obeys_return ⟨hv, hs⟩
  | perform expression =>
      apply D.bind (obeys_evalExpr hcx expression (D.part hs List.mem_cons_self))
      exact fun _ _ _ hv => obeys_return hv
  | assign target value =>
      have htarget : D.node (.expr target) := D.part hs List.mem_cons_self
      apply D.bind (obeys_evalExpr hcx value (D.part hs (List.mem_cons_of_mem _ List.mem_cons_self)))
      intro x result _ hresult
      have hdone : ∀ y (u : Unit), D.Before x y → True →
          D.Obeys y D.Completes (return .normal result) :=
        fun _ _ hy _ => obeys_return (D.value_later hy hresult)
      split
      · exact D.bind (D.assign (D.word htarget List.mem_cons_self) hresult) hdone
      · next receiver name =>
          have hname : D.Spells name := D.word htarget List.mem_cons_self
          apply D.bind (obeys_evalExpr hcx receiver (D.part htarget List.mem_cons_self))
          intro _ holder hy hh
          apply D.bind (obeys_expectObject hh)
          intro _ o hz ho
          have hlater := D.trans hy hz
          apply D.bind (D.setMember ho hname (D.value_later hlater hresult))
          exact fun _ u hu _ => hdone _ u (D.trans hlater hu) trivial
      · next hname hproperty =>
          refine D.bind (D.notTarget hs ?_) hdone
          cases target with
          | name name => exact (hname name rfl).elim
          | property receiver name => exact (hproperty receiver name rfl).elim
          | literal | group | binary | call | method | object => rfl

theorem obeys_execBlock {w : D.World} (hcx : D.Serves cx) {last : Value} (hlast : D.value w last)
    (statements : List Stmt) (hss : ∀ statement ∈ statements, D.node (.stmt statement)) :
    D.Obeys w D.Completes (execBlock cx last statements) := by
  rw [execBlock.eq_def]
  cases statements with
  | nil => exact obeys_return hlast
  | cons first rest =>
      obtain ⟨hfirst, hrest⟩ := List.forall_mem_cons.mp hss
      apply D.bind (obeys_execStmt hcx first hfirst)
      intro _ completion _ hc
      cases completion with
      | normal value => exact obeys_execBlock hcx hc rest hrest
      | returned value origin => exact obeys_return hc

end

end Tree

theorem obeys_runBody {cx : Context} (hcx : D.Serves cx) {d : Definition}
    (hd : D.node (.stmt (.define d))) {scope : FrameId} (hscope : D.frame w scope) {values : List Value}
    (hvs : ∀ v ∈ values, D.value w v) : D.Obeys w D.value (cx.runBody d scope values) := by
  have hbody : ∀ statement ∈ d.body, D.node (.stmt statement) := fun statement hs =>
    D.part hd (List.mem_map_of_mem hs)
  apply D.bind (D.allocate hscope)
  intro x frame hx hframe
  have hparameters : ∀ pair ∈ d.parameters.zip values, D.Spells pair.1 ∧ D.value x pair.2 := by
    intro pair hp
    obtain ⟨hname, hvalue⟩ := List.of_mem_zip hp
    exact ⟨D.word hd (List.mem_cons_of_mem _ hname), D.value_later hx (hvs _ hvalue)⟩
  apply D.bind (obeys_bindParameters hframe hparameters)
  intro _ _ hy _
  have hblock := fun y => obeys_execBlock (w := y) hcx value_nil d.body hbody
  apply D.bind (D.within completes_later (D.frame_later hy hframe) (hblock _))
  intro _ completion _ hc
  cases completion with
  | normal value => exact giveBare trivial
  | returned value origin => exact give hc.1

theorem obeys_apply {cx : Context} (hcx : D.Serves cx) {function : Function}
    (hf : D.value w (.function function)) {values : List Value} (hvs : ∀ v ∈ values, D.value w v) :
    D.Obeys w D.value (cx.apply function values) := by
  obtain ⟨ident, name, body⟩ := function
  cases body with
  | native native => exact obeys_callNative native hvs
  | closure d scope =>
      obtain ⟨hd, hscope⟩ := D.closure rfl hf
      have hname : D.Spells d.name := D.word hd List.mem_cons_self
      have hraise (k : Unit → Eval Value) :
          D.Obeys w D.value (Eval.raiseAt (.stmt (.define d))
            (.arity d.name d.parameters.length values.length) >>= k) :=
        D.raiseAt hd trivial (by simpa [Cause.words] using hname)
      exact obeys_ite (hraise _) (obeys_runBody hcx hd hscope hvs)

/-- Calls to a bounded depth obey. -/
theorem serves_upTo (tracing : Tracing) (depth : Nat) : D.Serves (.upTo tracing depth) := by
  induction depth with
  | zero =>
      refine ⟨fun kind _ hc _ hvs => obeys_trace tracing kind hc hvs, ?_⟩
      rintro w ⟨ident, name, body⟩ hf values hvs
      cases body with
      | native native => exact obeys_callNative native hvs
      | closure d scope => exact D.endless
  | succ depth ih =>
      refine ⟨ih.trace, fun {w function} hf {values} hvs => ?_⟩
      change D.Obeys w D.value (invoke tracing (depth + 1) function values)
      rw [invoke_succ]
      exact obeys_apply ih hf hvs

theorem obeys_complete {completion : Completion} (hc : D.Completes w completion) :
    D.Obeys w D.value (complete completion) := by
  cases completion with
  | normal value => exact give hc
  | returned value origin => exact D.raiseAt hc.2 trivial (by simp [Cause.words])

theorem obeys_runStatements {cx : Context} (hcx : D.Serves cx) {last : Value} (hlast : D.value w last)
    (statements : List Stmt) (hss : ∀ statement ∈ statements, D.node (.stmt statement)) :
    D.Obeys w D.value (runStatements cx last statements) := by
  induction statements generalizing w last with
  | nil => exact give hlast
  | cons first rest ih =>
      obtain ⟨hfirst, hrest⟩ := List.forall_mem_cons.mp hss
      apply D.bind (obeys_execStmt hcx first hfirst)
      intro _ completion _ hc
      exact D.bind (obeys_complete hc) fun _ value _ hv => ih hv hrest

/-- A run obeys every regime that has its program. -/
theorem obeys_run (tracing : Tracing) (depth : Nat) {program : Node} (hp : D.node program) :
    D.Obeys w D.value (run (.upTo tracing depth) program) := by
  have hcx := D.serves_upTo tracing depth
  cases program with
  | source statements =>
      refine D.blame hp (obeys_runStatements hcx value_nil statements fun statement hs => ?_)
      exact D.part hp (List.mem_map_of_mem hs)
  | stmt statement => exact D.bind (obeys_execStmt hcx statement hp) fun _ _ _ hc => obeys_complete hc
  | expr expression => exact obeys_evalExpr hcx expression hp

end Regime

end ProtoScript
