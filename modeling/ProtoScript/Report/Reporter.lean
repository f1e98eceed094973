import ProtoScript.Eval.Basic
import ProtoScript.Report.Basic

/-!
# The reporter

A reporter remembers which unit of which file is being worked on, writes traces and reports, and decides
whether work goes on after a failure.
-/

namespace ProtoScript

/-- A unit of source and the number of its first line. -/
structure Excerpt where
  text : String
  number : Int
  deriving DecidableEq, Repr

/-- The state of error reporting. -/
structure Reporter where
  /-- Whether a report ends the program. -/
  fatal : Bool := true
  /-- Whether calls are traced. -/
  verbose : Bool := false
  /-- Whether reports are coloured. -/
  color : Bool := true
  /-- The files in work, each with its present unit. -/
  traceback : Table String (Option Excerpt) := {}

namespace Reporter
open Text (Style Mark)

/-- Enters a file. -/
def enterFile (r : Reporter) (path : String) : Reporter :=
  { r with traceback := r.traceback.set path none }

/-- Enters a unit of a file. -/
def enterUnit (r : Reporter) (path : String) (excerpt : Excerpt) : Reporter :=
  { r with traceback := r.traceback.set path (some excerpt) }

/-- Leaves the unit of a file. -/
def leaveUnit (r : Reporter) (path : String) : Reporter :=
  r.enterFile path

/-- The style of a reporter's own words on a terminal. -/
def style (r : Reporter) (terminal : Style) : Style :=
  terminal.onlyIf r.color

/-- The marks on an error. -/
def alarm : List Mark :=
  [.bold, .red]

/-- The marks on the kind of a traced call. -/
def stepMarks : List Mark :=
  [.bold, .cyan]

/-- The line for a step of an evaluation. Only a verbose reporter writes one. -/
def stepText (r : Reporter) (terminal : Style) (kind detail : String) : String :=
  if r.verbose then
    (r.style terminal).paint stepMarks ("[" ++ kind ++ "] ")
      ++ (r.style terminal).paint [.dark] detail ++ "\n"
  else ""

/-- The line for an event of an evaluation. -/
def eventText (r : Reporter) (terminal : Style) : Event → String
  | .console text => text ++ "\n"
  | .step kind detail => r.stepText terminal kind.word detail

/-- The end of the highlighted stretch on its line: at least one character long, and not past the end
of the line except for that one. -/
def highlightEnd (report : Report) (place : Text.Place) : Nat :=
  let column : Int := place.column
  (min (max (column + report.stop - report.start) (column + 1))
    (max (place.line.length : Int) (column + 1))).toNat

/-- The line of source that a report concerns, with its stretch highlighted and a caret under it. -/
def underline (r : Reporter) (terminal : Style) (report : Report) (offset : Int) (source : String)
    (firstLine : Int) : String :=
  let place := Text.placeAt source.toList offset
  let stop := highlightEnd report place
  let paint := (r.style terminal).paint alarm
  "  line " ++ Numeral.ofInt (firstLine + place.index) ++ ":\n"
    ++ "  " ++ String.ofList (place.line.take place.column)
    ++ paint (String.ofList ((place.line.take stop).drop place.column))
    ++ String.ofList (place.line.drop stop) ++ "\n"
    ++ "  " ++ String.ofList (List.replicate place.column ' ')
    ++ paint (String.ofList ('^' :: List.replicate (stop - place.column - 1) '~'))

/-- The diagnosis of a report in a source. To ask for one without a place in the source is a
breakdown. -/
def diagnosis (r : Reporter) (terminal : Style) (report : Report) (source : String)
    (firstLine : Int) : Except Breakdown String :=
  match report.offset with
  | some offset => .ok (r.underline terminal report offset source firstLine)
  | none => .error .unlocated

/-- The unit that was entered last and not left. -/
def currentUnit? (r : Reporter) : Option Excerpt :=
  r.traceback.entries.reverse.findSome? Prod.snd

/-- The units in work that have any text, with their files. -/
def activeUnits (r : Reporter) : List (String × Excerpt) :=
  r.traceback.entries.filterMap fun (path, excerpt?) =>
    (excerpt?.filter (·.text ≠ "")).map fun excerpt => (path, excerpt)

/-- The list of units in work, if there is more than one. -/
def tracebackText (r : Reporter) : String :=
  match r.activeUnits with
  | [] | [_] => ""
  | units =>
      "Traceback:\n" ++ String.join (units.map fun (path, excerpt) =>
        "  File '" ++ path ++ "', line " ++ Numeral.ofInt excerpt.number ++ "\n")

/-- The diagnosis of a report, if it has a place in a unit in work. -/
def diagnosisText (r : Reporter) (terminal : Style) (report : Report) : String :=
  match report.offset, r.currentUnit? with
  | some offset, some excerpt =>
      if report.diagnosis && !report.internal then
        r.underline terminal report offset excerpt.text excerpt.number ++ "\n"
      else ""
  | _, _ => ""

/-- Everything that is written about a failure. -/
def reportText (r : Reporter) (terminal : Style) (report : Report) : String :=
  let paint := (r.style terminal).paint alarm
  r.tracebackText
    ++ (if report.internal then paint "[internal] " else "")
    ++ paint "error: " ++ report.message.text terminal ++ "\n"
    ++ r.diagnosisText terminal report

/-- What becomes of interrupted work. -/
inductive Ending
  /-- Work goes on after the guarded stretch. -/
  | resumes
  /-- The program ends with a status. -/
  | exits (status : Nat)
  /-- The interruption goes on to the next guard outside. -/
  | escapes
  deriving DecidableEq, Repr

/-- What a guard made of an interruption. -/
structure Guarded where
  ending : Ending
  output : String
  reporter : Reporter

/-- Writes a report. A fatal reporter ends the program; another one forgets the units in work, and goes
on as `otherwise` says. -/
def settle (r : Reporter) (terminal : Style) (report : Report) (otherwise : Ending) : Guarded :=
  if r.fatal then
    { ending := .exits 1, output := r.reportText terminal report, reporter := r }
  else
    { ending := otherwise
      output := r.reportText terminal report
      reporter := { r with traceback := {} } }

/-- Deals with an interruption of guarded work. Failures of the language are reported and then over;
those of the interpreter are reported and go on. -/
def guard (r : Reporter) (terminal : Style) : Signal → Guarded
  | .report report => r.settle terminal report .resumes
  | .endless =>
      r.settle terminal (.plain (.one "maximum recursion depth exceeded" "")) .resumes
  | .interrupt => r.settle terminal (.plain (.one "keyboard interrupt" "")) .resumes
  | .exit => { ending := .escapes, output := "", reporter := r }
  | .breakdown b => r.settle terminal (.unknown b) .escapes

end Reporter

end ProtoScript
