import ProtoScript.Fault
import ProtoScript.Text.Lines
import ProtoScript.Token.Cursor
import ProtoScript.Tree.Expectation

/-!
# Reports

What is told about a failure: a message, and the stretch of source it concerns if that is known. Each
phase of a run fails in its own way, and every failure of the language has a report.
-/

namespace ProtoScript

/-- What is told about a failure. The stretch runs from `start` to `stop`, and `offset` is its place in
the source if it can be located. -/
structure Report where
  message : Text.Message
  start : Int
  stop : Int
  diagnosis : Bool := true
  internal : Bool := false
  offset : Option Int := none
  deriving DecidableEq, Repr

namespace Report

/-- The snippet that a report is mainly about. -/
def subject (message : Text.Message) : String :=
  message.snippets.head?.getD ""

/-- A report on the stretch from `start` to `stop`. A stop of `-1` means that the stretch is as long as
the main snippet, and at least one character. -/
def make (message : Text.Message) (start stop : Int) : Report :=
  { message
    start
    stop := if stop = -1 then start + max (subject message).length 1 else stop }

/-- A report on a stretch as long as its main snippet. -/
def plain (message : Text.Message) : Report :=
  make message 0 (-1)

/-- A report on the character at `offset`. -/
def atOffset (message : Text.Message) (offset : Int) : Report :=
  { make message offset (offset + 1) with offset := some offset }

/-- A report on something wrong inside the interpreter. -/
def unknown (b : Breakdown) : Report :=
  { plain (.one "unknown error: '{}'" (b.title ++ ": " ++ b.text)) with internal := true }

end Report

/-- The ways in which running a program can fail. -/
inductive Failure
  | lex (error : Token.LexError)
  /-- A misfit, at an offset of the source if that is known. -/
  | parse (error : ParseError) (location : Option Nat)
  | eval (error : EvalError)
  /-- Something outside the program, such as a file that cannot be opened. -/
  | general (report : Report)
  | endless
  | breakdown (breakdown : Breakdown)

namespace Failure

/-- The failure that a malformed token is. -/
def ofLex (e : Token.LexError) : Failure :=
  if e.cause = .sourceEnd then .breakdown .sourceEnd else .lex e

/-- The failure of a parse, given where its misfit is. -/
def ofParse (locate : ParseError → Option Nat) : ParseFault → Failure
  | .error e => .parse e (locate e)
  | .unusable reason => .breakdown (.unusable reason)
  | .tooDeep => .breakdown .tooDeep

/-- The failure of an evaluation. -/
def ofFault : Fault → Failure
  | .error e => .eval e
  | .endless => .endless
  | .breakdown b => .breakdown b

end Failure

/-- What can interrupt a guarded stretch of work. -/
inductive Signal
  | report (report : Report)
  | endless
  | interrupt
  /-- A request to leave the program. -/
  | exit
  | breakdown (breakdown : Breakdown)

/-- A failure as an interruption. -/
def Failure.signal : Failure → Signal
  | .lex e => .report (.atOffset e.cause.message e.offset)
  | .parse e location => .report { Report.plain e.message with offset := location.map Int.ofNat }
  | .eval e => .report { Report.plain e.cause.message with diagnosis := false }
  | .general report => .report report
  | .endless => .endless
  | .breakdown b => .breakdown b

end ProtoScript
