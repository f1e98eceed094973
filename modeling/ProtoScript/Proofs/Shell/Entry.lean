import ProtoScript.Proofs.Session.Concatenation
import ProtoScript.Proofs.Session.Failures
import ProtoScript.Proofs.Session.Queue
import ProtoScript.Shell.Basic

/-!
# What a line does

A line makes the unit in progress longer, or finishes it. A finished unit is queued, the queue is run, and
the latest result is shown. What fails is reported, and the shell goes on unless the interpreter has broken
down. This module has the equations for these steps.
-/

namespace ProtoScript

namespace Shell
open Eval
variable {shell : Shell} {line : String}

/-- The unit in progress with a line at its end. -/
def extended (shell : Shell) (line : String) : String :=
  shell.buffer ++ line ++ "\n"

/-- The number of the first line of the unit that the next line belongs to. -/
def firstNumber (shell : Shell) : Nat :=
  if shell.buffer = "" then shell.lineNumber + 1 else shell.startNumber

/-- The shell behind a line that leaves its unit unfinished. -/
def continued (shell : Shell) (line : String) : Shell :=
  { shell with
    buffer := shell.extended line
    prompt := .secondary
    lineNumber := shell.lineNumber + 1
    startNumber := shell.firstNumber }

/-- The shell behind a line that finishes its unit, but for what becomes of that unit. -/
def completed (shell : Shell) : Shell :=
  { shell with
    buffer := ""
    prompt := .primary
    lineNumber := shell.lineNumber + 1
    startNumber := shell.firstNumber }

/-- What a session does with a finished unit. -/
def useUnit (text : String) (number : Int) : SessionStep Unit := do
  Session.enqueue text number
  Session.run
  showResult

theorem enter_apply (line : String) (shell : Shell) :
    enter line shell =
      if isUnfinished (shell.extended line) then .ok () (shell.continued line)
      else inSession (useUnit (shell.extended line) shell.firstNumber) shell.completed := by
  have henter : enter line shell =
      (if isUnfinished (shell.extended line) then
        modify fun s => { s with buffer := shell.extended line, prompt := .secondary }
      else do
        modify fun s => { s with buffer := "", prompt := .primary }
        let number := (← get).startNumber
        inSession (useUnit (shell.extended line) number) : ShellStep Unit)
        { shell with lineNumber := shell.lineNumber + 1, startNumber := shell.firstNumber } := rfl
  rw [henter]
  split <;> rfl

theorem inSession_of_ok {α : Type} {step : SessionStep α} {a : α} {t : Session}
    (h : step shell.session = .ok a t) : inSession step shell = .ok a { shell with session := t } := by
  rw [inSession, h]

theorem inSession_of_error {α : Type} {step : SessionStep α} {failure : Failure} {t : Session}
    (h : step shell.session = .error failure t) :
    inSession step shell = .error failure { shell with session := t } := by
  rw [inSession, h]

theorem useUnit_of_error {text : String} {failure : Failure} (h : parseUnit text = .error failure)
    (number : Int) (s : Session) :
    useUnit text number s =
      .error failure { s with reporter := s.reporter.enterUnit s.path { text, number } } := by
  rw [useUnit, bind_apply, Session.enqueue_of_error h]

/-- How a shell answers a line that fails, if no report is fatal. -/
def Answer.toFailure : Failure → Answer
  | .breakdown b => .fails (.breakdown b)
  | _ => .continues

/-- The shell behind a line, with everything written and reported. -/
def cleared (shell : Shell) (reporter : Reporter) : Shell :=
  { shell with
    session := { shell.session with state := { shell.session.state with output := #[] }, reporter } }

theorem runLine_of_ok {t : Shell} (h : enter line shell = .ok () t) (terminal : Text.Style) :
    shell.runLine terminal line =
      { answer := .continues
        output := (t.flush terminal).1
        shell := t.cleared t.session.reporter } := by
  rw [runLine, h]
  rfl

/-- A line that fails is followed by one report. -/
theorem runLine_of_error {t : Shell} {failure : Failure} (h : enter line shell = .error failure t)
    (hcalm : t.session.reporter.fatal = false) (terminal : Text.Style) :
    shell.runLine terminal line =
      { answer := .toFailure failure
        output := (t.flush terminal).1 ++ t.session.reporter.reportText terminal failure.told
        shell := t.cleared { t.session.reporter with traceback := {} } } := by
  have hguard : (t.flush terminal).2.session.reporter.guard terminal failure.signal =
      { ending := failure.ending
        output := t.session.reporter.reportText terminal failure.told
        reporter := { t.session.reporter with traceback := {} } } := by
    have hcalm' : ¬(t.flush terminal).2.session.reporter.fatal = true := Bool.eq_false_iff.mp hcalm
    rw [Failure.guard_signal, Reporter.settle, if_neg hcalm']
    rfl
  rw [runLine, h]
  simp only [hguard]
  cases failure <;> rfl

/-- Shows a value, if it is not NIL. -/
def showValue (value : Value) : SessionStep Unit := do
  match value.equals .nil with
  | .error fault => throw (.ofFault fault)
  | .ok true => return
  | .ok false =>
      match display (← get).state.heap value with
      | .ok text => writeLine text
      | .error fault => throw (.ofFault fault)

theorem showResult_of_nil {s : Session} (h : s.results = []) : showResult s = .ok () s := by
  obtain ⟨reporter, path, interactive, state, queue, results⟩ := s
  obtain rfl : results = [] := h
  rfl

/-- The latest result is taken before it is shown. -/
theorem showResult_of_cons {s : Session} {value : Value} {earlier : List Value}
    (h : s.results = value :: earlier) : showResult s = showValue value { s with results := earlier } := by
  obtain ⟨reporter, path, interactive, state, queue, results⟩ := s
  obtain rfl : results = value :: earlier := h
  rfl

theorem get_apply (s : Session) : (get : SessionStep Session) s = .ok s s :=
  rfl

/-- What is shown leaves everything but the output as it is. -/
inductive Shown (s : Session) : EStateM.Result Failure Session Unit → Prop
  | done (output : Array Event) : Shown s (.ok () { s with state := { s.state with output } })
  | failed (fault : Fault) : Shown s (.error (.ofFault fault) s)

theorem shown_showValue (value : Value) (s : Session) : Shown s (showValue value s) := by
  unfold showValue
  cases value.equals .nil with
  | error fault => exact .failed fault
  | ok isNil =>
      cases isNil with
      | true => exact .done s.state.output
      | false =>
          simp only [bind_apply, get_apply]
          cases display s.state.heap value with
          | ok text => exact .done _
          | error fault => exact .failed fault

end Shell

end ProtoScript
