import ProtoScript.Eval.Evaluator
import ProtoScript.Report.Reporter
import ProtoScript.Session.Source

/-!
# Sessions

A session parses units of source, queues them by line number and runs them over one heap, so that what a
unit defines is there for later ones. The results of units are kept until they are asked for.
-/

namespace ProtoScript

/-- A parsed unit waiting to be run. -/
structure QueuedUnit where
  text : String
  program : Node

/-- The state of a session. -/
structure Session where
  reporter : Reporter
  /-- The name of the file that units come from. -/
  path : String
  /-- Whether units are typed at a prompt. -/
  interactive : Bool
  state : State := .initial
  queue : Table Int QueuedUnit := {}
  /-- The values of finished units, latest first. -/
  results : List Value := []

/-- A step of a session. -/
abbrev SessionStep := EStateM Failure Session

namespace Session

/-- The name that stands for the prompt in place of a file. -/
def promptPath : String :=
  "<in>"

/-- A session without units. At a prompt no report is fatal. -/
def start (reporter : Reporter) (path : String) (interactive : Bool) : Session :=
  let reporter := reporter.enterFile path
  { reporter := if interactive then { reporter with fatal := false } else reporter
    path
    interactive }

/-- Changes the reporter. -/
def modifyReporter (change : Reporter → Reporter) : SessionStep Unit :=
  modify fun s => { s with reporter := change s.reporter }

/-- Parses a unit and queues it under the number of its first line. While it is parsed it counts as
being in work. -/
def enqueue (text : String) (number : Int) : SessionStep Unit := do
  let path := (← get).path
  modifyReporter (·.enterUnit path { text, number })
  match parseUnit text with
  | .ok program => modify fun s => { s with queue := s.queue.set number { text, program } }
  | .error failure => throw failure
  modifyReporter (·.leaveUnit path)

/-- Evaluates a program over the heap of the session. -/
def evaluate (program : Node) : SessionStep Value := fun s =>
  let tracing := if s.reporter.verbose then Tracing.verbose else Tracing.silent
  match Eval.run (.standard tracing) program s.state with
  | .ok value state => .ok value { s with state }
  | .error fault state => .error (.ofFault fault) { s with state }

/-- Takes a unit off the queue, if units are typed at a prompt. -/
def dequeue (number : Int) (s : Session) : Session :=
  if s.interactive then { s with queue := s.queue.erase number } else s

/-- Evaluates a program and then, however that ends, takes its unit off the queue. -/
def evaluateQueued (number : Int) (program : Node) : SessionStep Unit := fun s =>
  match evaluate program s with
  | .ok value s => .ok () (dequeue number { s with results := value :: s.results })
  | .error failure s => .error failure (dequeue number s)

/-- Runs queued units in order, up to the first failure. -/
def runUnits : List (Int × QueuedUnit) → SessionStep Unit
  | [] => return
  | (number, { text, program }) :: rest => do
      let path := (← get).path
      modifyReporter (·.enterUnit path { text, number })
      evaluateQueued number program
      modifyReporter (·.leaveUnit path)
      runUnits rest

/-- Runs the queue. Without a prompt it is emptied only if all units succeed. -/
def run : SessionStep Unit := do
  runUnits (← get).queue.entries
  unless (← get).interactive do
    modify fun s => { s with queue := {} }

/-- Takes the latest result. -/
def takeResult : SessionStep Value := do
  match (← get).results with
  | [] => throw (.breakdown .noResult)
  | latest :: earlier =>
      modify fun s => { s with results := earlier }
      return latest

/-- Reads the file of the session and queues it as one unit. There is nothing to read at a prompt, and
its name is not a file. -/
def load (readFile : String → Option String) : SessionStep Unit := do
  let s ← get
  if s.path ≠ promptPath then
    if '\x00' ∈ s.path.toList then
      throw (.breakdown .zeroInPath)
    match readFile s.path with
    | some text => enqueue (String.ofList (Text.unifyLineEnds text.toList)) 1
    | none =>
        let message := Text.Message.one "'{}' could not be opened" s.path
        throw (.general { Report.plain message with diagnosis := false })
  else unless s.interactive do
    throw (.general (.plain (.one "'<in>' is a reserved filename" "")))

/-- Everything that was written since the last time, as it appears on a terminal. -/
def flush (terminal : Text.Style) (s : Session) : String × Session :=
  (String.join (s.state.output.toList.map (s.reporter.eventText terminal)),
    { s with state := { s.state with output := #[] } })

end Session

end ProtoScript
