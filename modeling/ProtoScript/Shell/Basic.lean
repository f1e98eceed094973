import ProtoScript.Session.Basic

/-!
# The shell

A shell takes typed lines. A line is a command of the shell or part of a unit; unfinished units are
continued on the next line. A finished unit is run, and its value is shown unless it is NIL. Failures of
the language are reported, and the shell goes on.
-/

namespace ProtoScript

/-- The prompts of a shell. -/
inductive Prompt
  | primary
  /-- A unit is being continued. -/
  | secondary
  deriving DecidableEq, Repr

/-- A prompt as it is shown. -/
def Prompt.text : Prompt → String
  | .primary => "> "
  | .secondary => ". "

/-- The state of a shell. -/
structure Shell where
  session : Session
  /-- The lines of the unit in progress. -/
  buffer : String := ""
  prompt : Prompt := .primary
  /-- How many lines of program were typed. -/
  lineNumber : Nat := 0
  /-- The number of the first line of the unit in progress. -/
  startNumber : Nat := 0

/-- A step of a shell. -/
abbrev ShellStep := EStateM Failure Shell

namespace Shell

/-- A shell over a new session at the prompt. -/
def start (reporter : Reporter) : Shell :=
  { session := .start reporter Session.promptPath true }

/-- What a shell says first. -/
def intro : String :=
  "dolang interpreter :: Python backend\nType 'help' for more information."

/-- What a shell says when asked for help. -/
def helpText : String :=
  "Welcome to the dolang interpreter!\n\n"
    ++ "Statements end with ';' and blocks are written DO ... END. Try typing \n"
    ++ "'LET x = 1;', then 'DEF inc(n) DO RETURN n + 1; END', then 'inc(x);'.\n"
    ++ "Objects are created with 'OBJECT name DO LET field = 1; END' and their \n"
    ++ "methods receive the object as their first argument."

/-- Makes a step of the session. -/
def inSession {α : Type} (step : SessionStep α) : ShellStep α := fun shell =>
  match step shell.session with
  | .ok a session => .ok a { shell with session }
  | .error failure session => .error failure { shell with session }

/-- Writes a line. -/
def writeLine (text : String) : SessionStep Unit :=
  modify fun s => { s with state := { s.state with output := s.state.output.push (.console text) } }

/-- Shows the latest result of the session, if there is one and it is not NIL. -/
def showResult : SessionStep Unit := do
  unless (← get).results.isEmpty do
    let value ← Session.takeResult
    match value.equals .nil with
    | .error fault => throw (.ofFault fault)
    | .ok true => return
    | .ok false =>
        match display (← get).state.heap value with
        | .ok text => writeLine text
        | .error fault => throw (.ofFault fault)

/-- Counts a line and returns the unit in progress with that line at its end. -/
def extendUnit (line : String) : ShellStep String :=
  modifyGet fun shell =>
    let lineNumber := shell.lineNumber + 1
    (shell.buffer ++ line ++ "\n",
      { shell with
        lineNumber
        startNumber := if shell.buffer = "" then lineNumber else shell.startNumber })

/-- Takes a line of program: keeps it if its unit is unfinished, else runs the unit. -/
def enter (line : String) : ShellStep Unit := do
  let unit ← extendUnit line
  if isUnfinished unit then
    modify fun shell => { shell with buffer := unit, prompt := .secondary }
  else
    modify fun shell => { shell with buffer := "", prompt := .primary }
    let number := (← get).startNumber
    inSession do
      Session.enqueue unit number
      Session.run
      showResult

/-- How a shell took a line. -/
inductive Answer
  /-- The shell goes on. -/
  | continues
  /-- The shell is to be left. -/
  | stops
  /-- A fatal report ended the program. -/
  | exits (status : Nat)
  /-- The interpreter broke down. -/
  | fails (failure : Failure)

/-- What came of a line: the answer, what was written, and the shell after it. -/
structure Reply where
  answer : Answer
  output : String
  shell : Shell

/-- Everything the session wrote, and the shell after that. -/
def flush (terminal : Text.Style) (shell : Shell) : String × Shell :=
  let (text, session) := shell.session.flush terminal
  (text, { shell with session })

/-- Takes a line of program under the guard of the reporter. -/
def runLine (terminal : Text.Style) (shell : Shell) (line : String) : Reply :=
  match enter line shell with
  | .ok _ shell =>
      let (output, shell) := shell.flush terminal
      { answer := .continues, output, shell }
  | .error failure shell =>
      let (output, shell) := shell.flush terminal
      let guarded := shell.session.reporter.guard terminal failure.signal
      { answer :=
          match guarded.ending with
          | .resumes => .continues
          | .exits status => .exits status
          | .escapes => .fails failure
        output := output ++ guarded.output
        shell := { shell with session := { shell.session with reporter := guarded.reporter } } }

/-- The commands of a shell. -/
inductive Command
  | nothing
  | help
  | exit
  /-- Leave, after ending the line of the prompt. -/
  | endOfInput
  | program (line : String)
  deriving DecidableEq, Repr

/-- The characters of a command word. -/
def isCommandChar (c : Char) : Bool :=
  ('a' ≤ c && c ≤ 'z') || ('A' ≤ c && c ≤ 'Z') || ('0' ≤ c && c ≤ '9') || c = '_'

/-- The command that a line gives. A question mark asks for help, and a leading exclamation mark is part
of a program; otherwise the first word decides, whatever follows it. -/
def Command.ofLine (line : String) : Command :=
  let text := Text.trim line
  match text.toList with
  | [] => .nothing
  | '?' :: _ => .help
  | '!' :: _ => .program text
  | chars =>
      match String.ofList (chars.takeWhile isCommandChar) with
      | "help" => .help
      | "exit" => .exit
      | "EOF" => .endOfInput
      | _ => .program text

/-- Takes a typed line. -/
def takeLine (terminal : Text.Style) (shell : Shell) (line : String) : Reply :=
  match Command.ofLine line with
  | .nothing => { answer := .continues, output := "", shell }
  | .help => { answer := .continues, output := helpText ++ "\n", shell }
  | .exit => { answer := .stops, output := "", shell }
  | .endOfInput => { answer := .stops, output := "\n", shell }
  | .program text => shell.runLine terminal text

/-- What came of a whole dialogue: everything written, and the answer that ended it. -/
structure Dialogue where
  answer : Answer
  output : String
  shell : Shell

/-- The line that stands for the end of the input. -/
def endLine : String :=
  "EOF"

/-- Takes lines one after the other, each behind a prompt, until the shell is left. The end of the
input is the last line. -/
def converse (terminal : Text.Style) (shell : Shell) : List String → Dialogue
  | [] =>
      let reply := shell.takeLine terminal endLine
      { answer := reply.answer
        output := shell.prompt.text ++ reply.output
        shell := reply.shell }
  | line :: rest =>
      let reply := shell.takeLine terminal line
      match reply.answer with
      | .continues =>
          let later := converse terminal reply.shell rest
          { later with output := shell.prompt.text ++ reply.output ++ later.output }
      | answer =>
          { answer, output := shell.prompt.text ++ reply.output, shell := reply.shell }

end Shell

end ProtoScript
