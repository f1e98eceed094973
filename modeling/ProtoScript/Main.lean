import ProtoScript.CommandLine.Basic

/-!
# The executable

Input and output of the command: reading the file or the typed lines, writing, and the exit status.
-/

namespace ProtoScript.CommandLine

/-- Colours are used on a terminal unless the environment asks for none. -/
def detectStyle : IO Text.Style := do
  let isTerminal ← (← IO.getStdout).isTty
  let refused ← IO.getEnv "NO_COLOR"
  return if isTerminal && refused.isNone then .ansi else .plain

/-- Writes text at once. -/
def emitText (text : String) : IO Unit := do
  let out ← IO.getStdout
  out.putStr text
  out.flush

/-- The text of a file, if it can be read. -/
def readFile? (path : String) : IO (Option String) :=
  try
    return some (← IO.FS.readFile path)
  catch _ =>
    return none

/-- Writes an outcome and gives its exit status. -/
def report (outcome : Outcome) : IO UInt32 := do
  emitText outcome.output
  match outcome.ending with
  | .exits status => return UInt32.ofNat status
  | .fails _ => return 1

/-- Reads lines behind prompts until the shell is left. -/
partial def converse (terminal : Text.Style) (shell : Shell) : IO UInt32 := do
  emitText shell.prompt.text
  let line ← (← IO.getStdin).getLine
  let reply :=
    if line.isEmpty then shell.takeLine terminal Shell.endLine
    else shell.takeLine terminal line
  emitText reply.output
  match reply.answer with
  | .continues => if line.isEmpty then return 0 else converse terminal reply.shell
  | .stops => return 0
  | .exits status => return UInt32.ofNat status
  | .fails failure => report (finish terminal reply.shell.session.reporter "" failure)

/-- Runs the command. -/
def execute (arguments : List String) : IO UInt32 := do
  match Request.ofArguments arguments with
  | .run settings =>
      let terminal := settings.style (← detectStyle)
      match settings.file with
      | some path =>
          let text ← readFile? path
          report (runFile terminal settings.reporter (fun _ => text) path)
      | none =>
          emitText (Shell.intro ++ "\n")
          converse terminal (Shell.start settings.reporter)
  | _ => report (run (← detectStyle) (fun _ => none) "" arguments)

end ProtoScript.CommandLine

def main (arguments : List String) : IO UInt32 :=
  ProtoScript.CommandLine.execute arguments
