import ProtoScript.Text.Digit

/-!
# Arguments

The arguments of the command: flags, which may stand anywhere and be shortened, and at most one file. An
argument that starts like a flag but cannot be one is a misuse. Arguments are first classified one by
one, and then taken in order.
-/

namespace ProtoScript.CommandLine

/-- The flags of the command. -/
inductive Flag
  | help
  | verbose
  | noColor
  deriving DecidableEq, Repr

/-- The spellings of the flags. -/
def spellings : List (String × Flag) :=
  [("-h", .help), ("--help", .help), ("-v", .verbose), ("--verbose", .verbose),
    ("--no-color", .noColor)]

/-- The flag with exactly this spelling. -/
def flag? (spelling : String) : Option Flag :=
  spellings.lookup spelling

/-- An argument by its form. -/
inductive Argument
  /-- A word that is no flag. -/
  | word (text : String)
  /-- The mark behind which everything is a word. -/
  | divider
  /-- A flag, or several letters behind one dash. -/
  | flags (flags : List Flag)
  /-- A flag with something behind it that it does not take. -/
  | overloaded
  /-- Something that looks like a flag and is none. -/
  | unknown
  deriving DecidableEq, Repr

/-- A text up to its first equals sign, and what follows that sign. -/
def splitEquals (chars : List Char) : List Char × Option (List Char) :=
  match chars.dropWhile (· ≠ '=') with
  | [] => (chars, none)
  | _ :: rest => (chars.takeWhile (· ≠ '='), some rest)

/-- A text without the line feed at its end, if it has one. -/
def dropFinalNewline (chars : List Char) : List Char :=
  if chars.getLast? = some '\n' then chars.dropLast else chars

/-- Whether a text is a minus sign and a plain number, in digits of any script. It may end with a line
feed. -/
def isNegativeNumber (chars : List Char) : Bool :=
  match dropFinalNewline chars with
  | '-' :: rest =>
      match rest.dropWhile Text.isAnyDigit with
      | [] => !rest.isEmpty
      | '.' :: fraction => !fraction.isEmpty && fraction.all Text.isAnyDigit
      | _ => false
  | _ => false

/-- The form of an argument with a dash in front that is no known flag. -/
def wordOrUnknown (text : String) : Argument :=
  if isNegativeNumber text.toList || text.toList.contains ' ' then .word text else .unknown

/-- The flags that letters behind one dash stand for, if each of them is a flag. -/
def letterFlags (letters : List Char) : Option (List Flag) :=
  letters.mapM fun letter => flag? (String.ofList ['-', letter])

/-- A flag of one letter with something behind it, which has to be more letters. -/
def cluster (flag : Flag) (rest : List Char) : Argument :=
  match rest, letterFlags rest with
  | _ :: _, some more => .flags (flag :: more)
  | _, _ => .overloaded

/-- The flags that a long flag can stand for, if it is shortened. -/
def completions (shortened : List Char) : List Flag :=
  spellings.filterMap fun (spelling, flag) =>
    if shortened.isPrefixOf spelling.toList then some flag else none

/-- Classifies an argument that starts with two dashes. An ambiguous one is a misuse. -/
def classifyLong (text : String) : Option Argument :=
  let (name, value) := splitEquals text.toList
  match completions name with
  | [] => some (wordOrUnknown text)
  | [flag] => some (if value.isSome then .overloaded else .flags [flag])
  | _ => none

/-- Classifies an argument that starts with one dash. An equals sign may divide the first letter from
the others. -/
def classifyShort (text : String) : Argument :=
  match flag? (String.ofList (text.toList.take 2)), text.toList.drop 2 with
  | some flag, [] => .flags [flag]
  | some flag, '=' :: letters => cluster flag letters
  | some flag, letters => cluster flag letters
  | none, _ => wordOrUnknown text

/-- Classifies an argument, unless that is a misuse. -/
def classify (text : String) : Option Argument :=
  match text.toList with
  | '-' :: '-' :: _ => classifyLong text
  | '-' :: _ :: _ => some (classifyShort text)
  | _ => some (.word text)

/-- Classifies all arguments. Behind the divider all are words. -/
def classifyAll : List String → Option (List Argument)
  | [] => some []
  | text :: rest =>
      if text = "--" then some (.divider :: rest.map .word)
      else do
        let first ← classify text
        return first :: (← classifyAll rest)

/-- What the arguments ask for. -/
structure Settings where
  file : Option String := none
  verbose : Bool := false
  noColor : Bool := false
  deriving DecidableEq, Repr

/-- What the arguments come to. -/
inductive Request
  | run (settings : Settings)
  | help
  | misuse
  deriving DecidableEq, Repr

/-- Sets flags. To ask for help is no setting. -/
def setFlags (settings : Settings) : List Flag → Option Settings
  | [] => some settings
  | .help :: _ => none
  | .verbose :: rest => setFlags { settings with verbose := true } rest
  | .noColor :: rest => setFlags { settings with noColor := true } rest

/-- How far the words have been taken. -/
inductive WordState
  /-- No file was named yet. -/
  | open
  /-- The file was named by the argument just before. -/
  | named
  /-- No further word fits. -/
  | closed
  deriving DecidableEq, Repr

/-- The word state behind an argument that is no word. -/
def WordState.past (words : WordState) : WordState :=
  if words = .open then .open else .closed

/-- Takes arguments in order. `stray` tells that one of them did not fit, which is a misuse unless help
is asked for later. -/
def takeAll (settings : Settings) (words : WordState) (stray : Bool) : List Argument → Request
  | [] => if stray then .misuse else .run settings
  | .word text :: rest =>
      if words = .open then takeAll { settings with file := some text } .named stray rest
      else takeAll settings .closed true rest
  | .divider :: rest => takeAll settings words.past (stray || words = .closed) rest
  | .unknown :: rest => takeAll settings words.past true rest
  | .overloaded :: _ => .misuse
  | .flags flags :: rest =>
      match setFlags settings flags with
      | none => .help
      | some settings => takeAll settings words.past stray rest

/-- What a list of arguments asks for. -/
def Request.ofArguments (arguments : List String) : Request :=
  match classifyAll arguments with
  | none => .misuse
  | some classified => takeAll {} .open false classified

end ProtoScript.CommandLine
