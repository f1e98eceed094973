import ProtoScript.Literal.Number
import ProtoScript.Text.Template
import ProtoScript.Tree.Basic

/-!
# What a parser waits for

A parse error names what would have fitted, and the first token that does not fit.
-/

namespace ProtoScript

/-- The places where a program introduces or uses a bare name. -/
inductive NameRole
  | variable
  | function
  | parameter
  | loopVariable
  | property
  deriving DecidableEq, Repr

/-- How messages describe a name in its place. -/
def NameRole.description : NameRole → String
  | .variable => "identifier after LET"
  | .function => "function name after DEF"
  | .parameter => "parameter name after ','"
  | .loopVariable => "loop variable after FOR"
  | .property => "property name after '.'"

/-- Why the next token does not fit. -/
inductive Misfit
  /-- The input should end. -/
  | notEnd
  /-- A certain keyword or symbol should come. -/
  | notText (text : String)
  /-- A name should come. -/
  | notName (role : NameRole)
  /-- The input ends inside a block that one of the keywords would close. -/
  | openBlock (closers : List String)
  /-- The expression in front of an equals sign cannot be assigned to. -/
  | target
  /-- An expression should come. -/
  | notExpression
  /-- A member of an object should come, or the end of the object. -/
  | notMember
  /-- The exponent of a number is out of bounds. -/
  | exponentRange
  /-- An integer is not whole. -/
  | fractional
  deriving DecidableEq, Repr

/-- The message for a misfit, with one slot for the text of the token. -/
def Misfit.template : Misfit → String
  | .notEnd => "expected end of input, found '{}'"
  | .notText text => "expected '" ++ text ++ "', found '{}'"
  | .notName role => "expected " ++ role.description ++ ", found '{}'"
  | .openBlock closers => "expected " ++ " or ".intercalate closers ++ ", found '{}'"
  | .target => "invalid assignment target before '{}'"
  | .notExpression => "expected an expression, found '{}'"
  | .notMember => "expected LET, DEF or END in OBJECT, found '{}'"
  | .exponentRange => "exponent of '{}' is out of range"
  | .fractional => "integer literal '{}' has a fractional value"

/-- The first token that does not fit, with its place in the token list; no token means that the
input ended too early. -/
structure ParseError where
  cause : Misfit
  token : Option Token
  index : Nat
  deriving DecidableEq, Repr

/-- The text that a parse error shows for its token. -/
def ParseError.snippet (e : ParseError) : String :=
  match e.token with
  | some token => token.literal
  | none => "end of input"

/-- The message of a parse error. -/
def ParseError.message (e : ParseError) : Text.Message :=
  .one e.cause.template e.snippet

/-- The ways in which parsing can fail. -/
inductive ParseFault
  | error (error : ParseError)
  /-- A number token has a text that no program could use. -/
  | unusable (reason : Literal.Unusable)
  /-- Rules are nested too deeply. The bound grows with the number of tokens and is not reached. -/
  | tooDeep
  deriving DecidableEq, Repr

end ProtoScript
