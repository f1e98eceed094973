import ProtoScript.Eval.Evaluator

/-!
# Results of evaluations

An evaluation ends in a value or a fault, and leaves a state behind in both cases. This module has the
words for these parts, for the contexts in which calls have a bound on their depth, and for the steps that
a call is made of.
-/

namespace ProtoScript.Eval
variable {α β : Type}

/-- Sequencing, seen from a state. -/
theorem bind_apply {ε σ : Type} (m : EStateM ε σ α) (k : α → EStateM ε σ β) (s : σ) :
    (m >>= k) s =
      match m s with
      | .ok a t => k a t
      | .error e t => .error e t := by
  change EStateM.bind m k s = _
  rw [EStateM.bind]
  cases m s <;> rfl

/-- The value or the fault that a result holds. -/
def outcome : EStateM.Result Fault State α → Except Fault α
  | .ok a _ => .ok a
  | .error fault _ => .error fault

/-- The state that a result leaves behind. -/
def finalState : EStateM.Result Fault State α → State
  | .ok _ s => s
  | .error _ s => s

/-- The value that a completion carries. -/
def Completion.value : Completion → Value
  | .normal value => value
  | .returned value _ => value

namespace Context

/-- The context in which calls of user functions go at most `depth` deep. The standard context is the
one up to `maxDepth`. -/
def upTo (tracing : Tracing) (depth : Nat) : Context :=
  { trace := Eval.trace tracing, invoke := Eval.invoke tracing depth }

/-- Runs the body of a user function in the context. -/
def runBody (cx : Context) (d : Definition) (scope : FrameId) (arguments : List Value) :
    Eval Value := do
  let frame ← allocate (some scope)
  bindParameters frame (d.parameters.zip arguments)
  match ← within frame (execBlock cx .nil d.body) with
  | .returned value _ => return value
  | .normal _ => return .nil

/-- Calls a function; the body of a user function is run in the context. -/
def apply (cx : Context) (function : Function) (arguments : List Value) : Eval Value :=
  match function.body with
  | .native native => callNative native arguments
  | .closure d scope => do
      if arguments.length ≠ d.parameters.length then
        raiseAt (.stmt (.define d)) (.arity d.name d.parameters.length arguments.length)
      cx.runBody d scope arguments

end Context

/-- A call that may go deeper runs the body with one level less. -/
theorem invoke_succ (tracing : Tracing) (depth : Nat) (function : Function) (arguments : List Value) :
    invoke tracing (depth + 1) function arguments =
      (Context.upTo tracing depth).apply function arguments := by
  obtain ⟨ident, name, body⟩ := function
  cases body with
  | native native => rfl
  | closure d scope => rfl

/-- The member of an object, read from the present heap. -/
def lookup (o : Object) (name : String) : Eval (Option Value) :=
  return (← get).heap.lookup o name

/-- A method is looked up in the object before it is asked whether it is a function. -/
theorem calledMethod_eq (o : Object) (name : String) :
    calledMethod o name = lookup o name >>= fun found =>
      match found with
      | some (.function function) => return function
      | some _ => raise (.notMethod name)
      | none => raise (.noMethod o.title name) :=
  rfl

/-- A node is not blamed for an error that has a node to blame. -/
theorem blame_blame (outer inner : Node) (step : Eval α) :
    blame outer (blame inner step) = blame inner step := by
  funext s
  unfold blame
  rcases step s with _ | ⟨e | _ | _, t⟩ <;> rfl

theorem blame_raiseAt (outer inner : Node) (cause : Cause) :
    blame outer (raiseAt inner cause : Eval α) = raiseAt inner cause := by
  have hblamed : blamed outer (.ofError { cause, node := some inner }) =
      .ofError { cause, node := some inner } := by
    unfold Fault.ofError
    cases cause.message.defect? <;> rfl
  funext s
  exact congrArg (EStateM.Result.error · s) hblamed

/-- To blame a node for a sequence is to blame it for each of its steps. -/
theorem blame_bind (node : Node) (m : Eval α) (k : α → Eval β) :
    blame node (m >>= k) = blame node m >>= fun a => blame node (k a) := by
  funext s
  rw [bind_apply]
  unfold blame
  rw [bind_apply]
  cases m s <;> rfl

end ProtoScript.Eval
