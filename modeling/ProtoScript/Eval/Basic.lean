import ProtoScript.Value.Display
import ProtoScript.Value.Equality

/-!
# Evaluation steps

Evaluation works on a state: the heap, the frame in which names are looked up at the moment, and what
was written so far. A fault ends a step and keeps the state it was raised in.
-/

namespace ProtoScript

/-- The kinds of calls that a trace tells apart. -/
inductive StepKind
  | call
  | method
  deriving DecidableEq, Repr

/-- The word in front of a traced call. -/
def StepKind.word : StepKind → String
  | .call => "call"
  | .method => "method"

/-- A line that an evaluation writes. -/
inductive Event
  /-- A line of the program's own output. -/
  | console (text : String)
  /-- A traced call. -/
  | step (kind : StepKind) (detail : String)
  deriving DecidableEq, Repr

/-- How calls are traced. A silent trace works out what it would show and shows nothing. -/
inductive Tracing
  | off
  | silent
  | verbose
  deriving DecidableEq, Repr

/-- The state of an evaluation. -/
structure State where
  heap : Heap
  scope : FrameId
  output : Array Event := #[]

/-- A step of an evaluation. -/
abbrev Eval := EStateM Fault State

namespace Eval

/-- Fails with a cause; the enclosing node will be blamed. -/
def raise {α : Type} (cause : Cause) : Eval α :=
  throw (Fault.ofError { cause })

/-- Fails with a cause and the node to blame. -/
def raiseAt {α : Type} (node : Node) (cause : Cause) : Eval α :=
  throw (Fault.ofError { cause, node := some node })

/-- The fault with `node` to blame, if it is an error without one. -/
def blamed (node : Node) : Fault → Fault
  | .error e => .error (e.orBlame node)
  | fault => fault

/-- Runs a step on behalf of `node`: an error that leaves it has a node to blame. -/
def blame {α : Type} (node : Node) (step : Eval α) : Eval α := fun s =>
  match step s with
  | .ok a t => .ok a t
  | .error fault t => .error (blamed node fault) t

/-- Runs a step in another frame, and goes back to the present one however the step ends. -/
def within {α : Type} (frame : FrameId) (step : Eval α) : Eval α := fun s =>
  match step { s with scope := frame } with
  | .ok a t => .ok a { t with scope := s.scope }
  | .error fault t => .error fault { t with scope := s.scope }

/-- A result that needs no state. -/
def ofExcept {α : Type} : Except Fault α → Eval α
  | .ok a => pure a
  | .error fault => throw fault

/-- Writes a line. -/
def write (event : Event) : Eval Unit :=
  modify fun s => { s with output := s.output.push event }

/-- The value of a name in the present frame. -/
def resolve (name : String) : Eval (Option Value) :=
  return (← get).heap.resolve (← get).scope name

/-- The text of a value. -/
def display (v : Value) : Eval String := do
  ofExcept (ProtoScript.display (← get).heap v)

/-- The kind of a value. -/
def kind (v : Value) : Eval Kind :=
  ofExcept v.kind

/-- A new frame. -/
def allocate (parent : Option FrameId) : Eval FrameId :=
  modifyGet fun s =>
    let (frame, heap) := s.heap.allocate parent
    (frame, { s with heap })

/-- A new frame inside the present one. -/
def openFrame : Eval FrameId := do
  allocate (some (← get).scope)

/-- A new function. -/
def createFunction (name : String) (body : Body) : Eval Function :=
  modifyGet fun s =>
    let (function, heap) := s.heap.createFunction name body
    (function, { s with heap })

/-- Binds a name in a frame, whether or not it is bound there. -/
def bindIn (frame : FrameId) (name : String) (value : Value) : Eval Unit :=
  modify fun s => { s with heap := s.heap.bind frame name value }

/-- Binds a new name in a frame. -/
def defineIn (frame : FrameId) (name : String) (value : Value) : Eval Unit := do
  if (← get).heap.binds frame name then
    raise (.alreadyDefined name)
  bindIn frame name value

/-- A definition changes the heap alone, and fails exactly if the frame binds the name already. -/
theorem defineIn_apply (frame : FrameId) (name : String) (value : Value) (s : State) :
    defineIn frame name value s =
      match s.heap.define frame name value with
      | .ok heap => .ok () { s with heap }
      | .error cause => .error (Fault.ofError { cause }) s := by
  have happly : defineIn frame name value s =
      (if s.heap.binds frame name = true then do
        raise (.alreadyDefined name)
        bindIn frame name value
      else bindIn frame name value) s := rfl
  rw [happly, Heap.define]
  cases s.heap.binds frame name <;> rfl

/-- Binds a new name in the present frame. -/
def define (name : String) (value : Value) : Eval Unit := do
  defineIn (← get).scope name value

/-- Binds a known name anew in the nearest frame that binds it. -/
def assign (name : String) (value : Value) : Eval Unit := do
  match (← get).heap.owner? (← get).scope name with
  | some owner => bindIn owner name value
  | none => raise (.undefined name)

/-- An assignment changes the heap alone, and fails exactly if no frame of the chain binds the name. -/
theorem assign_apply (name : String) (value : Value) (s : State) :
    assign name value s =
      match s.heap.assign s.scope name value with
      | .ok heap => .ok () { s with heap }
      | .error cause => .error (Fault.ofError { cause }) s := by
  have happly : assign name value s =
      (match s.heap.owner? s.scope name with
        | some owner => bindIn owner name value
        | none => raise (.undefined name)) s := rfl
  rw [happly, Heap.assign]
  cases s.heap.owner? s.scope name <;> rfl

/-- Binds a member of an object. -/
def setMember (o : Object) (name : String) (value : Value) : Eval Unit :=
  bindIn o.frame name value

/-- Fails because a value is of none of the kinds. -/
def mismatch {α : Type} (kinds : List Kind) (v : Value) : Eval α := do
  raise (.wrongKind kinds (← kind v) (← display v))

/-- Fails unless the value is of one of the kinds. -/
def expectKind (kinds : List Kind) (v : Value) : Eval Unit := do
  unless kinds.contains (← kind v) do
    mismatch kinds v

/-- The truth value that a value must be. -/
def expectBool : Value → Eval Bool
  | .bool b => return b
  | v => mismatch [.boolean] v

/-- The list that a value must be. -/
def expectList : Value → Eval (List Value)
  | .list items => return items
  | v => mismatch [.list] v

/-- The object that a value must be. -/
def expectObject : Value → Eval Object
  | .object o => return o
  | v => mismatch [.object] v

/-- Traces a call. -/
def trace (tracing : Tracing) (kind : StepKind) (callee : String) (arguments : List Value) :
    Eval Unit := do
  match tracing with
  | .off => return
  | .silent | .verbose =>
      let texts ← arguments.mapM display
      if tracing = .verbose then
        write (.step kind (callee ++ "(" ++ ", ".intercalate texts ++ ")"))

end Eval

end ProtoScript
