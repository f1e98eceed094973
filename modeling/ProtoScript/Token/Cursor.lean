import ProtoScript.Text.Template
import ProtoScript.Token.Basic

/-!
# Reading position

A cursor stands between two characters of a source. It remembers how many characters lie behind it
and which of them belong to the token in progress. Reading never goes back, and a failed step leaves
the cursor where the failure was noticed.
-/

namespace ProtoScript.Token

/-- Whether a text starts with characters of the given classes, one each. -/
def startsIn : (classes : List (Char → Bool)) → (text : List Char) → Bool
  | [], _ => true
  | _ :: _, [] => false
  | inClass :: classes, c :: text => inClass c && startsIn classes text

/-- A reading position. `pending` holds the characters read since the last token was emitted, newest
first. -/
structure Cursor where
  index : Nat := 0
  pending : List Char := []
  rest : List Char
  deriving DecidableEq, Repr

namespace Cursor

/-- The start of a source. -/
def start (source : String) : Cursor :=
  { rest := source.toList }

/-- The text read since the last token was emitted. -/
def pendingText (c : Cursor) : String :=
  String.ofList c.pending.reverse

/-- The cursor behind the first `count` characters of the rest. -/
def advance (c : Cursor) (count : Nat) : Cursor :=
  { index := c.index + (c.rest.take count).length
    pending := (c.rest.take count).reverse ++ c.pending
    rest := c.rest.drop count }

/-- The cursor behind the longest run of characters in the class. -/
def skipWhile (c : Cursor) (inClass : Char → Bool) : Cursor :=
  c.advance (c.rest.takeWhile inClass).length

/-- Whether the next characters are in the given classes, one each. -/
def looksAt (c : Cursor) (classes : List (Char → Bool)) : Bool :=
  startsIn classes c.rest

/-- The cursor with nothing pending. -/
def clear (c : Cursor) : Cursor :=
  { c with pending := [] }

end Cursor

/-- What can be wrong with a token, with the text that shows it. -/
inductive Malformed
  /-- An exponent mark without digits. -/
  | exponent (text : String)
  /-- No character between the quotes of a character literal. -/
  | character (text : String)
  /-- A character literal without its second quote. -/
  | openCharacter (text : String)
  /-- A string literal without its second quote. -/
  | openString (text : String)
  /-- A backslash in front of a character that has no escape. -/
  | escape (text : String)
  /-- A character that starts no operator. -/
  | symbol (c : Char)
  /-- An operator asked for at the end of the source. -/
  | sourceEnd
  deriving DecidableEq, Repr

/-- The message for a malformed token. -/
def Malformed.message : Malformed → Text.Message
  | .exponent text => .one "missing exponent digits in '{}'" text
  | .character text => .one "invalid character literal '{}'" text
  | .openCharacter text => .one "unterminated character literal '{}'" text
  | .openString text => .one "unterminated string literal '{}'" text
  | .escape text => .one "invalid escape sequence '{}'" text
  | .symbol c => .one "illegal character '{}'" c.toString
  | .sourceEnd => .one "string index out of range" ""

/-- A malformed token and the offset at which reading stopped. -/
structure LexError where
  cause : Malformed
  offset : Nat
  deriving DecidableEq, Repr

/-- Steps of reading: they move a cursor and may fail where it stands. -/
abbrev Scan := EStateM LexError Cursor

namespace Scan

/-- Fails at the present position. -/
def fail {α : Type} (cause : Malformed) : Scan α := do
  throw { cause, offset := (← get).index }

/-- Whether the next characters are in the given classes. -/
def looksAt (classes : List (Char → Bool)) : Scan Bool :=
  return (← get).looksAt classes

/-- Reads the next characters if they are in the given classes. -/
def accept (classes : List (Char → Bool)) : Scan Bool := do
  let found ← looksAt classes
  if found then
    modify (·.advance classes.length)
  return found

/-- Reads as many characters of the class as there are. -/
def skipWhile (inClass : Char → Bool) : Scan Unit :=
  modify (·.skipWhile inClass)

/-- The text of the token in progress. -/
def pending : Scan String :=
  return (← get).pendingText

/-- Ends the token in progress and returns its text. -/
def emit : Scan String := do
  let text ← pending
  modify Cursor.clear
  return text

/-- Ends the token in progress. -/
def emitAs (kind : Kind) : Scan Token :=
  return { kind, literal := ← emit }

end Scan

end ProtoScript.Token
