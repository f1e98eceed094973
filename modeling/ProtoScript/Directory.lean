import ProtoScript.Table

/-!
# Directories

A directory of text files without directories in it. A file is opened by a path, which may go through
the directory itself any number of times before it names the file. Nothing outside the directory can be
opened.
-/

namespace ProtoScript

/-- The text files of a directory, by name. -/
structure Directory where
  files : Table String String := {}

namespace Directory

/-- The steps of a path, which slashes divide. -/
def pathSteps : List Char → List (List Char)
  | [] => [[]]
  | c :: rest =>
      match c == '/', pathSteps rest with
      | true, steps => [] :: steps
      | false, step :: steps => (c :: step) :: steps
      | false, [] => [[c]]

/-- Whether a step stays in the directory: a dot, or nothing between two slashes. -/
def stays (step : List Char) : Bool :=
  step = [] || step = ['.']

/-- Whether a path starts at the root of the file system. -/
def isAbsolute (path : List Char) : Bool :=
  path.head? = some '/'

/-- The name of the file that a path leads to, if it does not leave the directory. -/
def fileName? (path : String) : Option String :=
  let steps := pathSteps path.toList
  match steps.getLast? with
  | some name =>
      if !isAbsolute path.toList && steps.dropLast.all stays && !stays name then
        some (String.ofList name)
      else none
  | none => none

/-- The text of the file at a path. -/
def read? (d : Directory) (path : String) : Option String :=
  (fileName? path).bind d.files.get?

end Directory

end ProtoScript
