import ProtoScript.Literal.Escape
import ProtoScript.Tree.Expectation

/-!
# Parsing

One function per rule of the grammar, each reading from the front of a token list. Keywords and
symbols are recognised by their text, whatever their class. There is no recovery: the first token
that does not fit ends the parse.

```
source         statement*
statement      declaration | definition | branch | loop | return | expression ('=' expression)? ';'
declaration    'LET' name ('=' expression)? ';'
definition     'DEF' name '(' (name (',' name)*)? ')' 'DO' statement* 'END'
branch         'IF' expression 'DO' statement* ('ELSE' statement*)? 'END'
loop           'FOR' name 'IN' expression 'DO' statement* 'END'
return         'RETURN' expression? ('IF' expression)? ';'
expression     comparison (('AND' | 'OR') comparison)*
comparison     additive (('<' | '<=' | '>' | '>=' | '==' | '!=') additive)*
additive       multiplicative (('+' | '-') multiplicative)*
multiplicative secondary (('*' | '/') secondary)*
secondary      primary ('.' name arguments?)*
primary        literal | '(' expression ')' | object | name arguments?
arguments      '(' (expression (',' expression)*)? ')'
object         'OBJECT' name? 'DO' (declaration | definition)* 'END'
```
-/

namespace ProtoScript.Parser

/-- What ends a parse, with the tokens from the misfit on. -/
inductive Stop
  | misfit (cause : Misfit) (rest : List Token)
  | unusable (reason : Literal.Unusable)
  | tooDeep

/-- A parser takes tokens from the front of a list. -/
abbrev Parse := StateT (List Token) (Except Stop)

/-- Ends the parse at the next token. -/
def fail {α : Type} (cause : Misfit) : Parse α := do
  throw (.misfit cause (← get))

/-- Whether the next token has the given text. -/
def looksAt (text : String) : Parse Bool :=
  return (← get).head?.any (·.literal = text)

/-- Takes the next token. -/
def advance : Parse Unit :=
  modify List.tail

/-- Takes the next token if it has the given text. -/
def accept (text : String) : Parse Bool := do
  let found ← looksAt text
  if found then advance
  return found

/-- Takes the next token, which must have the given text. -/
def expect (text : String) : Parse Unit := do
  unless ← accept text do
    fail (.notText text)

/-- Takes the next token if it is an identifier. -/
def acceptName : Parse (Option String) := do
  match (← get).head? with
  | some ⟨.identifier, name⟩ =>
      advance
      return some name
  | _ => return none

/-- Takes the next token, which must be an identifier. -/
def expectName (role : NameRole) : Parse String := do
  match ← acceptName with
  | some name => return name
  | none => fail (.notName role)

/-- The layers of binary operators, from the loosest to the tightest. -/
inductive Layer
  | logical
  | comparison
  | additive
  | multiplicative
  deriving DecidableEq, Repr

namespace Layer

/-- The operators of a layer. -/
def symbols : Layer → List String
  | logical => ["AND", "OR"]
  | comparison => ["<", "<=", ">", ">=", "==", "!="]
  | additive => ["+", "-"]
  | multiplicative => ["*", "/"]

/-- The next tighter layer. -/
def tighter : Layer → Option Layer
  | logical => some comparison
  | comparison => some additive
  | additive => some multiplicative
  | multiplicative => none

end Layer

/-- Takes an operator of the layer, if one comes next. -/
def acceptOperator (layer : Layer) : Parse (Option Operator) := do
  match (← get).head? with
  | some token =>
      if layer.symbols.contains token.literal then
        advance
        return some (Operator.ofSymbol token.literal)
      else return none
  | none => return none

/-- The value of a number token. -/
def numberValue (token : Token) (rest : List Token) : Except Stop Literal :=
  match Literal.ofNumber token with
  | .ok value => .ok value
  | .error .exponentRange => .error (.misfit .exponentRange rest)
  | .error .fractional => .error (.misfit .fractional rest)
  | .error (.unusable reason) => .error (.unusable reason)

/-- The value of a token that is a literal. -/
def literalValue? (token : Token) (rest : List Token) : Option (Except Stop Literal) :=
  if token.literal = "NIL" then some (.ok .nil)
  else if token.literal = "TRUE" then some (.ok (.bool true))
  else if token.literal = "FALSE" then some (.ok (.bool false))
  else
    match token.kind with
    | .integer | .decimal => some (numberValue token rest)
    | .character => some (.ok (.character (Literal.decode token.literal)))
    | .string => some (.ok (.string (Literal.decode token.literal)))
    | .identifier | .operator => none

/-- Takes a literal, if one comes next. -/
def acceptLiteral : Parse (Option Literal) := do
  let tokens ← get
  match tokens.head? with
  | some token =>
      match literalValue? token tokens with
      | some value =>
          let value ← value
          advance
          return some value
      | none => return none
  | none => return none

/-- Further parameters, each behind a comma. -/
def parseMoreParameters : (room : Nat) → Parse (List String)
  | 0 => throw .tooDeep
  | room + 1 => do
      if ← accept "," then
        let name ← expectName .parameter
        return name :: (← parseMoreParameters room)
      else return []

/-- The parameters of a function with their parentheses. -/
def parseParameters (room : Nat) : Parse (List String) := do
  expect "("
  let names ← match ← acceptName with
    | some name => do pure (name :: (← parseMoreParameters room))
    | none => pure []
  expect ")"
  return names

/-- The name of an object, if it has one. -/
def acceptObjectName : Parse (Option String) := do
  if ← looksAt "DO" then return none
  else acceptName

mutual

/-- A statement. -/
def parseStatement : (room : Nat) → Parse Stmt
  | 0 => throw .tooDeep
  | room + 1 => do
      if ← looksAt "LET" then
        return .declare (← parseDeclaration room)
      else if ← looksAt "DEF" then
        return .define (← parseDefinition room)
      else if ← accept "IF" then
        let condition ← parseExpression room .logical
        expect "DO"
        let thenBody ← parseBlock room ["ELSE", "END"]
        let elseBody ← if ← accept "ELSE" then parseBlock room ["END"] else pure []
        expect "END"
        return .branch condition thenBody elseBody
      else if ← accept "FOR" then
        let name ← expectName .loopVariable
        expect "IN"
        let iterable ← parseExpression room .logical
        expect "DO"
        let body ← parseBlock room ["END"]
        expect "END"
        return .loop name iterable body
      else if ← accept "RETURN" then
        let bare ← do pure ((← looksAt ";") || (← looksAt "IF"))
        let value ← if bare then pure none else some <$> parseExpression room .logical
        if ← accept "IF" then
          let condition ← parseExpression room .logical
          expect ";"
          return .branch condition [.ret value] []
        else
          expect ";"
          return .ret value
      else
        let expression ← parseExpression room .logical
        if ← looksAt "=" then
          unless expression.isTarget do
            fail .target
          advance
          let value ← parseExpression room .logical
          expect ";"
          return .assign expression value
        else
          expect ";"
          return .perform expression

/-- Statements up to one of the closing keywords, which is left in place. -/
def parseBlock : (room : Nat) → (closers : List String) → Parse (List Stmt)
  | 0, _ => throw .tooDeep
  | room + 1, closers => do
      match (← get).head? with
      | none => fail (.openBlock closers)
      | some token =>
          if closers.contains token.literal then return []
          else
            let statement ← parseStatement room
            return statement :: (← parseBlock room closers)

/-- A variable declaration. -/
def parseDeclaration : (room : Nat) → Parse Declaration
  | 0 => throw .tooDeep
  | room + 1 => do
      expect "LET"
      let name ← expectName .variable
      let value ← if ← accept "=" then some <$> parseExpression room .logical else pure none
      expect ";"
      return { name, value }

/-- A function definition. -/
def parseDefinition : (room : Nat) → Parse Definition
  | 0 => throw .tooDeep
  | room + 1 => do
      expect "DEF"
      let name ← expectName .function
      let parameters ← parseParameters room
      expect "DO"
      let body ← parseBlock room ["END"]
      expect "END"
      return { name, parameters, body }

/-- An expression whose operators are of the layer or tighter. -/
def parseExpression : (room : Nat) → (layer : Layer) → Parse Expr
  | 0, _ => throw .tooDeep
  | room + 1, layer => do
      let first ← match layer.tighter with
        | some tighter => parseExpression room tighter
        | none => parseSecondary room
      parseChain room layer first

/-- Further operands of a layer, each behind an operator and applied to all that stands left of it. -/
def parseChain : (room : Nat) → (layer : Layer) → (left : Expr) → Parse Expr
  | 0, _, _ => throw .tooDeep
  | room + 1, layer, left => do
      match ← acceptOperator layer with
      | none => return left
      | some operator =>
          let right ← match layer.tighter with
            | some tighter => parseExpression room tighter
            | none => parseSecondary room
          parseChain room layer (.binary operator left right)

/-- A primary expression with its properties and method calls. -/
def parseSecondary : (room : Nat) → Parse Expr
  | 0 => throw .tooDeep
  | room + 1 => do
      let receiver ← parsePrimary room
      parseMembers room receiver

/-- Further properties and method calls of `receiver`. -/
def parseMembers : (room : Nat) → (receiver : Expr) → Parse Expr
  | 0, _ => throw .tooDeep
  | room + 1, receiver => do
      if ← accept "." then
        let name ← expectName .property
        if ← looksAt "(" then
          let arguments ← parseArguments room
          parseMembers room (.method receiver name arguments)
        else
          parseMembers room (.property receiver name)
      else return receiver

/-- Arguments with their parentheses. -/
def parseArguments : (room : Nat) → Parse (List Expr)
  | 0 => throw .tooDeep
  | room + 1 => do
      expect "("
      if ← accept ")" then return []
      else
        let first ← parseExpression room .logical
        let more ← parseMoreArguments room
        expect ")"
        return first :: more

/-- Further arguments, each behind a comma. -/
def parseMoreArguments : (room : Nat) → Parse (List Expr)
  | 0 => throw .tooDeep
  | room + 1 => do
      if ← accept "," then
        let argument ← parseExpression room .logical
        return argument :: (← parseMoreArguments room)
      else return []

/-- A literal, a group, an object, a call or a name. -/
def parsePrimary : (room : Nat) → Parse Expr
  | 0 => throw .tooDeep
  | room + 1 => do
      match ← acceptLiteral with
      | some value => return .literal value
      | none =>
          if ← accept "(" then
            let inner ← parseExpression room .logical
            expect ")"
            return .group inner
          else if ← accept "OBJECT" then
            let name ← acceptObjectName
            expect "DO"
            let (fields, methods) ← parseObjectMembers room
            expect "END"
            return .object name fields methods
          else
            match ← acceptName with
            | some name =>
                if ← looksAt "(" then return .call name (← parseArguments room)
                else return .name name
            | none => fail .notExpression

/-- The members of an object up to its end, fields apart from methods. -/
def parseObjectMembers : (room : Nat) → Parse (List Declaration × List Definition)
  | 0 => throw .tooDeep
  | room + 1 => do
      if ← looksAt "END" then return ([], [])
      else if ← looksAt "LET" then
        let field ← parseDeclaration room
        let (fields, methods) ← parseObjectMembers room
        return (field :: fields, methods)
      else if ← looksAt "DEF" then
        let method ← parseDefinition room
        let (fields, methods) ← parseObjectMembers room
        return (fields, method :: methods)
      else fail .notMember

end

/-- Statements up to the end of the input. -/
def parseSource : (room : Nat) → Parse (List Stmt)
  | 0 => throw .tooDeep
  | room + 1 => do
      if (← get).isEmpty then return []
      else
        let statement ← parseStatement room
        return statement :: (← parseSource room)

/-- The rules that a parse can start from. -/
inductive Rule
  | source
  | statement
  | expression
  deriving DecidableEq, Repr

/-- The rule with the given name. -/
def Rule.ofName? : String → Option Rule
  | "source" => some .source
  | "statement" | "stmt" => some .statement
  | "expression" | "expr" => some .expression
  | _ => none

/-- One start rule. -/
def parseRule (room : Nat) : Rule → Parse Node
  | .source => .source <$> parseSource room
  | .statement => .stmt <$> parseStatement room
  | .expression => .expr <$> parseExpression room .logical

/-- A start rule that must use up all tokens. -/
def parseWhole (room : Nat) (rule : Rule) : Parse Node := do
  let node ← parseRule room rule
  unless (← get).isEmpty do
    fail .notEnd
  return node

/-- A bound on the nesting of rules: between two tokens fewer than a dozen rules are entered. -/
def roomFor (tokens : List Token) : Nat :=
  12 * tokens.length + 12

/-- Parses all of `tokens` by `rule`. -/
def parse (rule : Rule) (tokens : List Token) : Except ParseFault Node :=
  match (parseWhole (roomFor tokens) rule).run tokens with
  | .ok (node, _) => .ok node
  | .error (.misfit cause rest) =>
      .error (.error { cause, token := rest.head?, index := tokens.length - rest.length })
  | .error (.unusable reason) => .error (.unusable reason)
  | .error .tooDeep => .error .tooDeep

end ProtoScript.Parser
