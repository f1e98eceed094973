import ProtoScript.Token.Cursor

/-!
# Reading tokens

The class of a token follows from its first characters, and its text is as long as its class allows.

```
identifier  letter or _, then letters, digits, _ and -
number      optional sign, digits, optional fraction, optional exponent; decimal iff it has a fraction
character   one character or escape between single quotes
string      any characters and escapes on one line between double quotes
operator    < > ! or =, optionally followed by =, or one other symbol
comment     two slashes and the rest of the line
```
-/

namespace ProtoScript.Token

/-- The class that holds one character. -/
def only (c : Char) : Char → Bool :=
  (· = c)

/-- Skips white space. -/
def lexSpace : Scan Unit := do
  Scan.skipWhile isSpace
  discard Scan.emit

/-- Skips a comment up to the end of its line. -/
def lexComment : Scan Unit := do
  discard (Scan.accept [only '/', only '/'])
  Scan.skipWhile (· ≠ '\n')
  discard Scan.emit

/-- Reads an identifier. -/
def lexIdentifier : Scan Token := do
  discard (Scan.accept [isNameStart])
  Scan.skipWhile isNamePart
  Scan.emitAs .identifier

/-- Reads the exponent of a number, if it has one. -/
def lexExponent : Scan Unit := do
  if ← Scan.accept [isExponentMark] then
    discard (Scan.accept [isSign])
    if ← Scan.accept [isDigit] then
      Scan.skipWhile isDigit
    else
      Scan.fail (.exponent (← Scan.pending))

/-- Reads a number. A point without a digit behind it is left for the next token. -/
def lexNumber : Scan Token := do
  discard (Scan.accept [isSign])
  Scan.skipWhile isDigit
  let fraction ← Scan.accept [only '.', isDigit]
  if fraction then
    Scan.skipWhile isDigit
  lexExponent
  Scan.emitAs (if fraction then .decimal else .integer)

/-- Reads the character behind a backslash. -/
def lexEscape : Scan Unit := do
  unless ← Scan.accept [isEscapable] do
    Scan.fail (.escape (String.ofList ('\\' :: (← get).rest.take 1)))

/-- Reads what stands between the quotes of a character literal. -/
def lexCharacterBody : Scan Unit := do
  if ← Scan.accept [only '\\'] then
    lexEscape
  else unless ← Scan.accept [isPlain '\''] do
    let text ← Scan.pending
    if ← Scan.looksAt [fun c => c ≠ '\n' && c ≠ '\r'] then
      Scan.fail (.character text)
    else
      Scan.fail (.openCharacter text)

/-- Reads a character literal. -/
def lexCharacter : Scan Token := do
  discard (Scan.accept [only '\''])
  lexCharacterBody
  unless ← Scan.accept [only '\''] do
    Scan.fail (.openCharacter (← Scan.pending))
  Scan.emitAs .character

/-- Reads characters and escapes up to the closing quote or the end of the line, at most `room`
of them. -/
def lexStringBody : (room : Nat) → Scan Unit
  | 0 => return
  | room + 1 => do
      if ← Scan.accept [only '\\'] then
        lexEscape
        lexStringBody room
      else if ← Scan.accept [isPlain '"'] then
        lexStringBody room

/-- Reads a string literal. -/
def lexString : Scan Token := do
  discard (Scan.accept [only '"'])
  lexStringBody (← get).rest.length
  unless ← Scan.accept [only '"'] do
    Scan.fail (.openString (← Scan.pending))
  Scan.emitAs .string

/-- Reads an operator. -/
def lexOperator : Scan Token := do
  if ← Scan.accept [isRelation] then
    discard (Scan.accept [only '='])
  else unless ← Scan.accept [isSymbol] do
    match (← get).rest with
    | [] => Scan.fail .sourceEnd
    | c :: _ => Scan.fail (.symbol c)
  Scan.emitAs .operator

/-- Reads one token. -/
def lexToken : Scan Token := do
  let c ← get
  if c.looksAt [isNameStart] then
    lexIdentifier
  else if c.looksAt [isSign, isDigit] || c.looksAt [isDigit] then
    lexNumber
  else if c.looksAt [only '\''] then
    lexCharacter
  else if c.looksAt [only '"'] then
    lexString
  else
    lexOperator

/-- What reading a source came to. `offsets` has the start of every token, and of the malformed one
if reading ended there. -/
structure Lexing where
  tokens : List Token
  offsets : List Nat
  error : Option LexError
  cursor : Cursor
  deriving DecidableEq, Repr

/-- Reads tokens, in at most `room` steps. Every step reads at least one character. -/
def lexLoop : (room : Nat) → Cursor → Lexing
  | 0, c => ⟨[], [], none, c⟩
  | room + 1, c =>
      if c.rest.isEmpty then ⟨[], [], none, c⟩
      else if c.looksAt [isSpace] then
        match lexSpace c with
        | .ok _ next | .error _ next => lexLoop room next
      else if c.looksAt [only '/', only '/'] then
        match lexComment c with
        | .ok _ next | .error _ next => lexLoop room next
      else
        match lexToken c with
        | .ok token next =>
            let later := lexLoop room next
            { later with tokens := token :: later.tokens, offsets := c.index :: later.offsets }
        | .error error next => ⟨[], [c.index], some error, next⟩

/-- Reads all tokens from a position on. -/
def lexFrom (c : Cursor) : Lexing :=
  lexLoop c.rest.length c

/-- Reads all tokens of a source. -/
def lex (source : String) : Lexing :=
  lexFrom (Cursor.start source)

end ProtoScript.Token
