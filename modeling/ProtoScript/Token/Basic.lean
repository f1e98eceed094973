/-!
# Tokens

A token is a class together with the exact piece of source it was read from. Keywords are ordinary
identifiers and are told apart by their text alone.
-/

namespace ProtoScript

/-- The classes of tokens. -/
inductive Token.Kind
  | identifier
  | integer
  | decimal
  | character
  | string
  | operator
  deriving DecidableEq, Repr, Inhabited

/-- A token of the language. -/
structure Token where
  kind : Token.Kind
  literal : String
  deriving DecidableEq, Repr, Inhabited

namespace Token

/-- White space between tokens. -/
def isSpace (c : Char) : Bool :=
  c = ' ' || c = '\x08' || c = '\n' || c = '\r' || c = '\t'

/-- The first character of an identifier. -/
def isNameStart (c : Char) : Bool :=
  ('A' ≤ c && c ≤ 'Z') || ('a' ≤ c && c ≤ 'z') || c = '_'

/-- A decimal digit. -/
def isDigit (c : Char) : Bool :=
  '0' ≤ c && c ≤ '9'

/-- The further characters of an identifier. -/
def isNamePart (c : Char) : Bool :=
  isNameStart c || isDigit c || c = '-'

/-- The sign of a number or of its exponent. -/
def isSign (c : Char) : Bool :=
  c = '+' || c = '-'

/-- The mark in front of an exponent. -/
def isExponentMark (c : Char) : Bool :=
  c = 'e' || c = 'E'

/-- The characters an escape sequence may name. -/
def isEscapable (c : Char) : Bool :=
  c = 'b' || c = 'n' || c = 'r' || c = 't' || c = '\'' || c = '"' || c = '\\'

/-- The operators that may be followed by an equals sign. -/
def isRelation (c : Char) : Bool :=
  c = '<' || c = '>' || c = '!' || c = '='

/-- The characters that are operators by themselves, relations included. -/
def isSymbol (c : Char) : Bool :=
  !(isNameStart c || isDigit c || c = '\'' || c = '"' || isSpace c)

/-- The characters that stand for themselves in a literal between two `quote`s. -/
def isPlain (quote c : Char) : Bool :=
  !(c = quote || c = '\n' || c = '\r' || c = '\\')

end Token

end ProtoScript
