import ProtoScript.Proofs.Token.Shape

/-!
# The token grammar

Which texts are tokens of which class, and how a source is cut into tokens, said without a lexer.

```
identifier  letter or _, then letters, digits, _ and -
number      sign? digits fraction? exponent?
fraction    '.' digits
exponent    'e' or 'E', sign? digits
character   one piece between single quotes
string      pieces between double quotes
piece       one character that is no quote, line end or backslash; or a backslash and an escapable one
operator    one symbol; or < > ! or = followed by =
```

The first characters of what is left of a source select a rule, and the next token is the longest text at
the front that the rule describes.
-/

namespace ProtoScript.Token

/-- One digit or more. -/
structure Digits (text : List Char) : Prop where
  nonempty : text ≠ []
  all : ∀ c ∈ text, isDigit c = true

/-- A sign, or nothing. -/
inductive Sign : List Char → Prop
  | absent : Sign []
  | present {c : Char} (h : isSign c = true) : Sign [c]

/-- A point and digits, or nothing. -/
inductive Fraction : (present : Bool) → List Char → Prop
  | absent : Fraction false []
  | present {digits : List Char} (h : Digits digits) : Fraction true ('.' :: digits)

/-- A mark, a sign and digits, or nothing. -/
inductive Exponent : (present : Bool) → List Char → Prop
  | absent : Exponent false []
  | present {mark : Char} {sign digits : List Char} (hm : isExponentMark mark = true)
      (hs : Sign sign) (hd : Digits digits) : Exponent true (mark :: (sign ++ digits))

/-- A number with or without a fraction, and with or without an exponent. -/
inductive Number (fraction exponent : Bool) : List Char → Prop
  | parts {sign whole behind power : List Char} (hs : Sign sign) (hw : Digits whole)
      (hf : Fraction fraction behind) (he : Exponent exponent power) :
      Number fraction exponent (sign ++ (whole ++ (behind ++ power)))

/-- What stands for one character between two quotes. -/
inductive Piece (quote : Char) : List Char → Prop
  | plain {c : Char} (h : isPlain quote c = true) : Piece quote [c]
  | escape {c : Char} (h : isEscapable c = true) : Piece quote ['\\', c]

/-- Any number of pieces. -/
inductive Pieces (quote : Char) : List Char → Prop
  | none : Pieces quote []
  | more {first rest : List Char} (hf : Piece quote first) (hr : Pieces quote rest) :
      Pieces quote (first ++ rest)

/-- Which texts are tokens of which class. -/
inductive Lexeme : Kind → List Char → Prop
  | identifier {c : Char} {text : List Char} (hc : isNameStart c = true)
      (ht : ∀ d ∈ text, isNamePart d = true) : Lexeme .identifier (c :: text)
  | integer {exponent : Bool} {text : List Char} (h : Number false exponent text) :
      Lexeme .integer text
  | decimal {exponent : Bool} {text : List Char} (h : Number true exponent text) :
      Lexeme .decimal text
  | character {body : List Char} (h : Piece '\'' body) :
      Lexeme .character ('\'' :: (body ++ ['\'']))
  | string {body : List Char} (h : Pieces '"' body) : Lexeme .string ('"' :: (body ++ ['"']))
  | symbol {c : Char} (h : isSymbol c = true) : Lexeme .operator [c]
  | relation {c : Char} (h : isRelation c = true) : Lexeme .operator [c, '=']

/-- A token whose text is as its class demands. -/
def WellSpelled (token : Token) : Prop :=
  Lexeme token.kind token.literal.toList

/-- The rules of the grammar. -/
inductive Form
  | identifier
  | number
  | character
  | string
  | operator
  deriving DecidableEq, Repr

/-- The rule for the tokens of a class. -/
def Kind.form : Kind → Form
  | .identifier => .identifier
  | .integer | .decimal => .number
  | .character => .character
  | .string => .string
  | .operator => .operator

/-- The rule that the first characters of a source select. -/
def formOf (source : List Char) : Form :=
  if startsIn [isNameStart] source then .identifier
  else if startsIn [isSign, isDigit] source || startsIn [isDigit] source then .number
  else if startsIn [only '\''] source then .character
  else if startsIn [only '"'] source then .string
  else .operator

/-- Whether a source starts with a comment. -/
def startsComment (source : List Char) : Bool :=
  startsIn [only '/', only '/'] source

/-- The next token of a source, in front of `rest`. -/
structure Next (source : List Char) (token : Token) (rest : List Char) : Prop where
  split : source = token.literal.toList ++ rest
  noComment : startsComment source = false
  selected : token.kind.form = formOf source
  spelled : token.WellSpelled
  longest : ∀ kind text, kind.form = token.kind.form → Lexeme kind text → text <+: source →
    text.length ≤ token.literal.toList.length
  /-- A number without an exponent is not followed by the mark of one. -/
  unmarked : ∀ fraction, token.kind.form = .number → Number fraction false token.literal.toList →
    startsIn [isExponentMark] rest = false

/-- Cutting a source from left to right gives the tokens, and leaves `left`. -/
inductive Cuts : (source : List Char) → (tokens : List Token) → (left : List Char) → Prop
  | stop (left : List Char) : Cuts left [] left
  | space {c : Char} {rest : List Char} {tokens : List Token} {left : List Char}
      (hc : isSpace c = true) (h : Cuts rest tokens left) : Cuts (c :: rest) tokens left
  | comment {text rest : List Char} {tokens : List Token} {left : List Char} (ht : '\n' ∉ text)
      (hr : rest = [] ∨ rest.head? = some '\n') (h : Cuts rest tokens left) :
      Cuts ('/' :: '/' :: (text ++ rest)) tokens left
  | token {source rest : List Char} {token : Token} {tokens : List Token} {left : List Char}
      (ht : Next source token rest) (h : Cuts rest tokens left) :
      Cuts source (token :: tokens) left

/-- Nothing can be cut off the front of a source, though it does not end there. -/
structure Stuck (source : List Char) : Prop where
  nonempty : source ≠ []
  noSpace : startsIn [isSpace] source = false
  noComment : startsComment source = false
  noToken : ∀ token rest, ¬Next source token rest

end ProtoScript.Token
