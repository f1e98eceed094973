import ProtoScript.Report.Basic
import ProtoScript.Text.Blank
import ProtoScript.Token.Lexer
import ProtoScript.Tree.Parser

/-!
# Units of source

A unit is a piece of source that is parsed as a whole program. A unit typed line by line is finished
when its last token can end a statement and no block is open.
-/

namespace ProtoScript

/-- The tokens of a source. -/
def readTokens (source : String) : Except Failure (List Token) :=
  let lexing := Token.lex source
  match lexing.error with
  | some e => .error (.ofLex e)
  | none => .ok lexing.tokens

/-- The offset of a misfit: the start of its token, or the end of the source but for blanks. -/
def misfitOffset (source : String) (offsets : List Nat) (e : ParseError) : Nat :=
  offsets[e.index]?.getD (Text.dropBlankEnd source.toList).length

/-- Parses a source as a whole program. -/
def parseUnit (source : String) : Except Failure Node := do
  let tokens ← readTokens source
  match Parser.parse .source tokens with
  | .ok node => .ok node
  | .error fault =>
      .error (.ofParse (some ∘ misfitOffset source (Token.lex source).offsets) fault)

/-- Parses a source by a start rule; misfits are not located. -/
def parseBy (rule : String) (tokens : List Token) : Except Failure Node :=
  match Parser.Rule.ofName? rule with
  | none => .error (.breakdown (.unknownRule rule))
  | some rule => (Parser.parse rule tokens).mapError (.ofParse fun _ => none)

/-- How many identifiers of a token list have the given text. -/
def countKeyword (keyword : String) (tokens : List Token) : Nat :=
  tokens.countP fun token => token.kind = .identifier && token.literal = keyword

/-- Whether tokens can be a complete unit: no block is open, and the last token ends a statement or a
block. -/
def isComplete (tokens : List Token) : Bool :=
  match tokens.getLast? with
  | none => true
  | some last =>
      countKeyword "DO" tokens ≤ countKeyword "END" tokens
        && (last.literal = ";" || last.literal = "END")

/-- Whether a unit goes on on the next line. A text with a malformed token does not, so that its error
comes up. -/
def isUnfinished (text : String) : Bool :=
  let lexing := Token.lex text
  lexing.error.isNone && !isComplete lexing.tokens

end ProtoScript
