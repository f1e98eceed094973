import ProtoScript.Proofs.Eval.Outcome

/-!
# RETURN as a signal

A second semantics of statements, in which RETURN interrupts them with a signal that carries its value
and the statement itself. Blocks, branches and loops know nothing of signals. The call of a user
function catches the signal of its body, whose value is then its result; a signal that gets out of a
statement of a program is an error at the RETURN it came from. Expressions are the same in both
semantics, but for the calls in them. Completions are shown to implement signals: the two semantics
give equal results from every state.
-/

namespace ProtoScript.Eval

/-- What can interrupt a statement. -/
inductive Interrupt
  | fault (fault : Fault)
  /-- A RETURN on its way to the function that it leaves. -/
  | signal (value : Value) (origin : Stmt)

/-- A step that can be interrupted. -/
abbrev Signalling := EStateM Interrupt State

namespace Signalling

/-- A step without signals. -/
def lift {α : Type} (step : Eval α) : Signalling α := fun s =>
  match step s with
  | .ok a t => .ok a t
  | .error fault t => .error (.fault fault) t

/-- Runs a step on behalf of `node`. Signals are nobody's fault. -/
def blame {α : Type} (node : Node) (step : Signalling α) : Signalling α := fun s =>
  match step s with
  | .ok a t => .ok a t
  | .error (.fault fault) t => .error (.fault (blamed node fault)) t
  | .error (.signal value origin) t => .error (.signal value origin) t

/-- Runs a step in another frame, and goes back to the present one however the step ends. -/
def within {α : Type} (frame : FrameId) (step : Signalling α) : Signalling α := fun s =>
  match step { s with scope := frame } with
  | .ok a t => .ok a { t with scope := s.scope }
  | .error interrupt t => .error interrupt { t with scope := s.scope }

/-- Runs a step on each item. -/
def forEach (step : Value → Signalling Value) : List Value → Signalling Value
  | [] => return .nil
  | item :: rest => do
      let _ ← step item
      forEach step rest

mutual

/-- Executes a statement. -/
def exec (cx : Context) (statement : Stmt) : Signalling Value :=
  blame (.stmt statement) <|
    match statement with
    | .declare d => lift (declare cx d)
    | .define d => lift (defineFunction d)
    | .branch condition thenBody elseBody => do
        let holds ← lift (do expectBool (← evalExpr cx condition))
        within (← lift openFrame) (if holds then execAll cx .nil thenBody else execAll cx .nil elseBody)
    | .loop name iterable body => do
        let items ← lift (do expectList (← evalExpr cx iterable))
        forEach (fun item => do
          let frame ← lift openFrame
          lift (defineIn frame name item)
          within frame (execAll cx .nil body)) items
    | .ret value => do
        throw (.signal (← lift (evalOption cx value)) (.ret value))
    | .perform expression => lift (evalExpr cx expression)
    | .assign target value => lift do
        let result ← evalExpr cx value
        match target with
        | .name name => assign name result
        | .property receiver name => setMember (← expectObject (← evalExpr cx receiver)) name result
        | _ => raise (.notTarget target.form)
        return result

/-- Executes statements, one after the other. -/
def execAll (cx : Context) (last : Value) : List Stmt → Signalling Value
  | [] => return last
  | first :: rest => do
      execAll cx (← exec cx first) rest

end

/-- Runs the body of a function. A signal ends it with the value of the signal; a body without one
gives NIL. -/
def caught (body : Signalling Value) : Eval Value := fun s =>
  match body s with
  | .ok _ t => .ok .nil t
  | .error (.signal value _) t => .ok value t
  | .error (.fault fault) t => .error fault t

/-- Calls a function, with at most `depth` calls of user functions inside each other. -/
def invoke (tracing : Tracing) : (depth : Nat) → Function → List Value → Eval Value
  | _, { body := .native native, .. }, arguments => callNative native arguments
  | 0, { body := .closure .., .. }, _ => throw .endless
  | depth + 1, { body := .closure d scope, .. }, arguments => do
      if arguments.length ≠ d.parameters.length then
        raiseAt (.stmt (.define d)) (.arity d.name d.parameters.length arguments.length)
      let frame ← allocate (some scope)
      bindParameters frame (d.parameters.zip arguments)
      caught (within frame (execAll { trace := trace tracing, invoke := invoke tracing depth } .nil d.body))

/-- Runs a statement outside every function, where a signal is an error. -/
def outermost (statement : Signalling Value) : Eval Value := fun s =>
  match statement s with
  | .ok value t => .ok value t
  | .error (.signal _ origin) t =>
      .error (.error { cause := .strayReturn, node := some (.stmt origin) }) t
  | .error (.fault fault) t => .error fault t

/-- Executes the statements of a program; the value of the last is the value of the program. -/
def runAll (cx : Context) (last : Value) : List Stmt → Eval Value
  | [] => return last
  | first :: rest => do
      runAll cx (← outermost (exec cx first)) rest

/-- The value of a program, a statement or an expression in the present frame. -/
def run (tracing : Tracing) (depth : Nat) (node : Node) : Eval Value :=
  let cx : Context := { trace := trace tracing, invoke := invoke tracing depth }
  match node with
  | .source statements => Eval.blame (.source statements) (runAll cx .nil statements)
  | .stmt statement => outermost (exec cx statement)
  | .expr expression => evalExpr cx expression

/-- A step with completions, told with signals. -/
def signalled (step : Eval Completion) : Signalling Value := fun s =>
  match step s with
  | .ok (.normal value) t => .ok value t
  | .ok (.returned value origin) t => .error (.signal value origin) t
  | .error fault t => .error (.fault fault) t

section Rules
variable {α : Type} (m : Eval α) (k : α → Eval Completion) (step : Eval Completion)

theorem lift_bind {β : Type} (k : α → Eval β) : lift (m >>= k) = lift m >>= fun a => lift (k a) := by
  funext s
  simp only [bind_apply, lift]
  cases m s <;> rfl

theorem signalled_bind : signalled (m >>= k) = lift m >>= fun a => signalled (k a) := by
  funext s
  simp only [signalled, bind_apply, lift]
  cases m s <;> rfl

theorem signalled_normal (m : Eval Value) :
    signalled (m >>= fun value => return .normal value) = lift m := by
  funext s
  simp only [signalled, bind_apply, lift]
  cases m s <;> rfl

theorem signalled_blame (node : Node) :
    signalled (Eval.blame node step) = blame node (signalled step) := by
  funext s
  simp only [signalled, Eval.blame, blame]
  cases step s with
  | ok completion t => cases completion <;> rfl
  | error fault t => rfl

theorem signalled_within (frame : FrameId) :
    signalled (Eval.within frame step) = within frame (signalled step) := by
  funext s
  simp only [signalled, Eval.within, within]
  cases step { s with scope := frame } with
  | ok completion t => cases completion <;> rfl
  | error fault t => rfl

/-- Going on only after a normal completion is what signals do by themselves. -/
theorem signalled_andThen (next : Value → Eval Completion) :
    signalled (step >>= fun completion =>
      match completion with
      | .returned value origin => return .returned value origin
      | .normal value => next value) = signalled step >>= fun value => signalled (next value) := by
  funext s
  simp only [signalled, bind_apply]
  cases step s with
  | ok completion t => cases completion <;> rfl
  | error fault t => rfl

theorem caught_signalled :
    caught (signalled step) = step >>= fun completion =>
      match completion with
      | .returned value _ => return value
      | .normal _ => return .nil := by
  funext s
  simp only [signalled, bind_apply, caught]
  cases step s with
  | ok completion t => cases completion <;> rfl
  | error fault t => rfl

/-- The message of a stray RETURN can be written, so it is an error of the language. -/
theorem ofError_strayReturn (node : Option Node) :
    Fault.ofError { cause := .strayReturn, node } = .error { cause := .strayReturn, node } := by
  have hmessage : Cause.strayReturn.message.defect? = none := by decide
  rw [Fault.ofError, hmessage]

theorem outermost_signalled : outermost (signalled step) = step >>= complete := by
  funext s
  simp only [signalled, bind_apply, outermost]
  cases step s with
  | ok completion t =>
      cases completion with
      | normal value => rfl
      | returned value origin =>
          simp only [complete, raiseAt, ofError_strayReturn]
          rfl
  | error fault t => rfl

theorem signalled_forEach {step : Value → Eval Completion} {step' : Value → Signalling Value}
    (h : ∀ item, signalled (step item) = step' item) (items : List Value) :
    signalled (Eval.forEach step items) = forEach step' items := by
  induction items with
  | nil => rfl
  | cons item rest ih =>
      rw [Eval.forEach]
      refine (signalled_andThen (step item) fun _ => Eval.forEach step rest).trans ?_
      rw [h, ih]
      rfl

end Rules

mutual

theorem signalled_execStmt (cx : Context) (statement : Stmt) :
    signalled (execStmt cx statement) = exec cx statement := by
  rw [execStmt.eq_def, exec.eq_def, signalled_blame]
  refine congrArg _ ?_
  cases statement with
  | declare d => exact signalled_normal _
  | define d => exact signalled_normal _
  | branch condition thenBody elseBody =>
      have hthen := signalled_execBlock cx .nil thenBody
      have helse := signalled_execBlock cx .nil elseBody
      simp only [signalled_bind, lift_bind, bind_assoc]
      refine congrArg _ (funext fun value => congrArg _ (funext fun holds => ?_))
      cases holds with
      | true => simp only [if_true, signalled_bind, signalled_within, hthen]
      | false => simp only [Bool.false_eq_true, if_false, signalled_bind, signalled_within, helse]
  | loop name iterable body =>
      have hbody := signalled_execBlock cx .nil body
      simp only [signalled_bind, lift_bind, bind_assoc]
      refine congrArg _ (funext fun value => congrArg _ (funext fun items => ?_))
      refine signalled_forEach (fun item => ?_) items
      simp only [signalled_bind, signalled_within, hbody]
  | ret value => exact signalled_bind _ _
  | perform expression => exact signalled_normal _
  | assign target value =>
      refine Eq.trans (congrArg signalled ?_) (signalled_normal _)
      cases target <;> simp only [bind_assoc, pure_bind]

theorem signalled_execBlock (cx : Context) (last : Value) (statements : List Stmt) :
    signalled (execBlock cx last statements) = execAll cx last statements := by
  rw [execBlock.eq_def, execAll.eq_def]
  cases statements with
  | nil => rfl
  | cons first rest =>
      refine (signalled_andThen (execStmt cx first) fun value => execBlock cx value rest).trans ?_
      rw [signalled_execStmt cx first]
      refine congrArg _ (funext fun value => ?_)
      exact signalled_execBlock cx value rest

end

/-- The completion of a function's body is turned into its result where the signal would be caught. -/
theorem runBody_eq (cx : Context) (d : Definition) (scope : FrameId) (arguments : List Value) :
    cx.runBody d scope arguments = (do
      let frame ← allocate (some scope)
      bindParameters frame (d.parameters.zip arguments)
      caught (within frame (execAll cx .nil d.body))) := by
  refine congrArg _ (funext fun frame => congrArg _ (funext fun _ => ?_))
  have hcaught := caught_signalled (Eval.within frame (execBlock cx .nil d.body))
  rw [signalled_within, signalled_execBlock] at hcaught
  exact hcaught.symm

/-- Calls give the same results. In the induction on the depth, the bodies are executed with equal
calls, so only the way out of a body is left to compare. -/
theorem invoke_eq (tracing : Tracing) (depth : Nat) :
    Eval.invoke tracing depth = invoke tracing depth := by
  induction depth with
  | zero =>
      funext function arguments
      obtain ⟨ident, name, body⟩ := function
      cases body <;> rfl
  | succ depth ih =>
      funext function arguments
      obtain ⟨ident, name, body⟩ := function
      cases body with
      | native native => rfl
      | closure d scope =>
          have hbody :=
            runBody_eq { trace := trace tracing, invoke := invoke tracing depth } d scope arguments
          rw [Eval.invoke, invoke, ih]
          by_cases hn : arguments.length ≠ d.parameters.length
          · rw [if_pos hn, if_pos hn]
            exact congrArg _ (funext fun _ => hbody)
          · rw [if_neg hn, if_neg hn]
            exact hbody

theorem outermost_exec (cx : Context) (statement : Stmt) :
    outermost (exec cx statement) = execStmt cx statement >>= complete := by
  rw [← signalled_execStmt, outermost_signalled]

theorem runStatements_eq (cx : Context) (last : Value) (statements : List Stmt) :
    runStatements cx last statements = runAll cx last statements := by
  induction statements generalizing last with
  | nil => rfl
  | cons first rest ih =>
      rw [runStatements, runAll, outermost_exec, bind_assoc]
      exact congrArg _ (funext fun completion => congrArg _ (funext fun value => ih value))

/-- Completions implement signals: from every state, a program, a statement or an expression has the
same value or fault, writes the same lines and leaves the same heap in both semantics. -/
theorem run_eq_signalling (tracing : Tracing) (depth : Nat) (node : Node) (s : State) :
    Eval.run (.upTo tracing depth) node s = run tracing depth node s := by
  rw [Context.upTo, invoke_eq]
  cases node with
  | source statements => rw [Eval.run, run, runStatements_eq]
  | stmt statement => rw [Eval.run, run, outermost_exec]
  | expr expression => rfl

end Signalling

end ProtoScript.Eval
