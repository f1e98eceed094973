/-!
# Lines of a source

Finding the line and column of an offset, and the line ends of files.
-/

namespace ProtoScript.Text

/-- A place in a source: the line it lies on, the number of lines before that one, and the number of
characters before the place on its line. -/
structure Place where
  line : List Char
  index : Nat
  column : Nat
  deriving DecidableEq, Repr

/-- The offset as a place between two characters of `source`: one below zero is the start, one past
the end is the end. -/
def clampOffset (source : List Char) (offset : Int) : Nat :=
  min offset.toNat source.length

/-- The place of an offset. -/
def placeAt (source : List Char) (offset : Int) : Place :=
  let before := source.take (clampOffset source offset)
  let after := source.drop (clampOffset source offset)
  let head := (before.reverse.takeWhile (· ≠ '\n')).reverse
  { line := head ++ after.takeWhile (· ≠ '\n')
    index := before.count '\n'
    column := head.length }

/-- The lines of a text, without their line feeds. Only a line feed ends a line, and the last line may
lack it. -/
def splitLines : List Char → List (List Char)
  | [] => []
  | '\n' :: rest => [] :: splitLines rest
  | c :: rest =>
      match splitLines rest with
      | [] => [[c]]
      | line :: lines => (c :: line) :: lines

/-- The text of a file with every line end written as a line feed. -/
def unifyLineEnds : List Char → List Char
  | [] => []
  | '\r' :: '\n' :: rest => '\n' :: unifyLineEnds rest
  | '\r' :: rest => '\n' :: unifyLineEnds rest
  | c :: rest => c :: unifyLineEnds rest

end ProtoScript.Text
