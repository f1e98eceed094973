/-!
# Terminal styles

Decoration of text for a terminal. A style says what becomes of a text under marks; everything that writes
takes one and knows nothing else about it. A plain style gives the bare text. The style of a terminal puts an
escape sequence for each mark in front of the text, and behind it one that ends them all.
-/

namespace ProtoScript.Text

/-- A mark that can be put on a piece of text. -/
inductive Mark
  | bold
  | dark
  | red
  | cyan
  deriving DecidableEq, Repr

/-- A way to decorate text. -/
structure Style where
  /-- The text under the given marks, outermost first. -/
  paint : List Mark → String → String

namespace Style

/-- Marks are not shown. -/
def plain : Style where
  paint _ text := text

/-- The style of a writer that may itself refuse colours. -/
def onlyIf (style : Style) (allowed : Bool) : Style :=
  if allowed then style else .plain

end Style

namespace Mark

/-- The number that selects a mark in an escape sequence. -/
def code : Mark → String
  | bold => "1"
  | dark => "2"
  | red => "31"
  | cyan => "36"

/-- The escape sequence that switches a mark on. -/
def sequence (mark : Mark) : String :=
  "\x1b[" ++ mark.code ++ "m"

end Mark

/-- The sequence that switches all marks off. -/
def resetSequence : String :=
  "\x1b[0m"

/-- Marks are escape sequences around the text. -/
def Style.ansi : Style where
  paint marks text := String.join (marks.map Mark.sequence) ++ text ++ resetSequence

end ProtoScript.Text
