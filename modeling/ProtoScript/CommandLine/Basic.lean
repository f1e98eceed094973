import ProtoScript.CommandLine.Arguments
import ProtoScript.Shell.Basic

/-!
# The command

With a file the command runs it; without one it starts a shell. Reports of a file run are fatal.
-/

namespace ProtoScript.CommandLine

/-- How the command ends. -/
inductive Ending
  | exits (status : Nat)
  /-- The interpreter broke down. -/
  | fails (failure : Failure)

/-- Everything that the command wrote, and how it ended. -/
structure Outcome where
  output : String
  ending : Ending

/-- The text that explains the arguments. -/
def usage : String :=
  "usage: dolang [-h] [-v] [--no-color] [file]\n\n"
    ++ "positional arguments:\n"
    ++ "  file           file to interpret and run (if empty, goes to command-line\n"
    ++ "                 mode)\n\n"
    ++ "options:\n"
    ++ "  -h, --help     show this help message and exit\n"
    ++ "  -v, --verbose  print every function and method call\n"
    ++ "  --no-color     disable colored error output\n"

/-- The status of a command that was misused. -/
def misuseStatus : Nat :=
  2

namespace Settings

/-- The style of output under the settings. -/
def style (settings : Settings) (terminal : Text.Style) : Text.Style :=
  terminal.onlyIf !settings.noColor

/-- The reporter under the settings. -/
def reporter (settings : Settings) : Reporter :=
  { verbose := settings.verbose, color := !settings.noColor }

end Settings

/-- The last guard of the command: it reports a failure, and ends the command. -/
def finish (terminal : Text.Style) (reporter : Reporter) (written : String) (failure : Failure) :
    Outcome :=
  let guarded := reporter.guard terminal failure.signal
  { output := written ++ guarded.output
    ending :=
      match guarded.ending with
      | .resumes => .exits 0
      | .exits status => .exits status
      | .escapes => .fails failure }

/-- Runs a file. -/
def runFile (terminal : Text.Style) (reporter : Reporter) (readFile : String → Option String)
    (path : String) : Outcome :=
  let steps : SessionStep Unit := do
    Session.load readFile
    Session.run
  match steps (.start reporter path false) with
  | .ok _ session => { output := (session.flush terminal).1, ending := .exits 0 }
  | .error failure session =>
      finish terminal session.reporter (session.flush terminal).1 failure

/-- Runs a shell on lines of input. -/
def runShell (terminal : Text.Style) (reporter : Reporter) (lines : List String) : Outcome :=
  let dialogue := (Shell.start reporter).converse terminal lines
  let written := Shell.intro ++ "\n" ++ dialogue.output
  match dialogue.answer with
  | .continues | .stops => { output := written, ending := .exits 0 }
  | .exits status => { output := written, ending := .exits status }
  | .fails failure => finish terminal dialogue.shell.session.reporter written failure

/-- Runs the command on its arguments, with the files it may read and the text of its input. -/
def run (terminal : Text.Style) (readFile : String → Option String) (input : String)
    (arguments : List String) : Outcome :=
  match Request.ofArguments arguments with
  | .misuse => { output := "", ending := .exits misuseStatus }
  | .help => { output := usage, ending := .exits 0 }
  | .run settings =>
      let terminal := settings.style terminal
      match settings.file with
      | some path => runFile terminal settings.reporter readFile path
      | none =>
          runShell terminal settings.reporter
            ((Text.splitLines input.toList).map String.ofList)

end ProtoScript.CommandLine
