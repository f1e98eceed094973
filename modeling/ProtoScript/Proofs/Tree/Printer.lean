import ProtoScript.Proofs.Literal.Written
import ProtoScript.Proofs.Tree.Lookahead

/-!
# Printing trees

A tree is printed as the tokens that spell it, with a blank behind each. No parentheses are added: a tree
that needs some has a group where they stand. Fields of an object are printed in front of its methods,
and a branch is always printed with its condition first. Which trees can be printed is decided along the
layers of operators.
-/

namespace ProtoScript
open ProtoScript.Parser ProtoScript.Grammar

/-- The layer of an operator, if a source can spell it. -/
def Operator.layer? : Operator → Option Layer
  | and | or => some .logical
  | equal | unequal | less | lessEqual | greater | greaterEqual => some .comparison
  | add | subtract => some .additive
  | multiply | divide => some .multiplicative
  | unknown _ => none

/-- The token of an operator. -/
def Operator.token (operator : Operator) : Token :=
  match operator with
  | and | or => word operator.symbol
  | _ => mark operator.symbol

mutual

/-- The tokens that an expression is printed as. -/
def Expr.tokens : Expr → List Token
  | .literal value => [value.token]
  | .group inner => mark "(" :: (inner.tokens ++ [mark ")"])
  | .binary operator left right => left.tokens ++ operator.token :: right.tokens
  | .name name => [word name]
  | .property receiver name => receiver.tokens ++ [mark ".", word name]
  | .call name arguments => word name :: tokensOfArguments arguments
  | .method receiver name arguments =>
      receiver.tokens ++ mark "." :: word name :: tokensOfArguments arguments
  | .object name fields methods =>
      word "OBJECT" :: (objectName name ++ word "DO" ::
        ((tokensOfDeclarations fields ++ tokensOfDefinitions methods) ++ [word "END"]))

/-- The tokens of arguments, with their parentheses. -/
def tokensOfArguments : List Expr → List Token
  | [] => [mark "(", mark ")"]
  | first :: more => mark "(" :: (first.tokens ++ (tokensOfMore more ++ [mark ")"]))

/-- The tokens of further arguments, each behind a comma. -/
def tokensOfMore : List Expr → List Token
  | [] => []
  | e :: rest => mark "," :: (e.tokens ++ tokensOfMore rest)

/-- The tokens of a declaration. -/
def Declaration.tokens : Declaration → List Token
  | { name, value := none } => [word "LET", word name, mark ";"]
  | { name, value := some value } =>
      word "LET" :: word name :: mark "=" :: (value.tokens ++ [mark ";"])

/-- The tokens of several declarations. -/
def tokensOfDeclarations : List Declaration → List Token
  | [] => []
  | d :: rest => d.tokens ++ tokensOfDeclarations rest

/-- The tokens of a definition. -/
def Definition.tokens : Definition → List Token
  | { name, parameters := names, body } =>
      word "DEF" :: word name :: (parameters names ++ word "DO" :: (tokensOfStmts body ++ [word "END"]))

/-- The tokens of several definitions. -/
def tokensOfDefinitions : List Definition → List Token
  | [] => []
  | d :: rest => d.tokens ++ tokensOfDefinitions rest

/-- The tokens of a statement. -/
def Stmt.tokens : Stmt → List Token
  | .declare d => d.tokens
  | .define d => d.tokens
  | .branch condition thenBody [] =>
      word "IF" :: (condition.tokens ++ word "DO" :: (tokensOfStmts thenBody ++ [word "END"]))
  | .branch condition thenBody elseBody =>
      word "IF" :: (condition.tokens ++ word "DO" ::
        (tokensOfStmts thenBody ++ word "ELSE" :: (tokensOfStmts elseBody ++ [word "END"])))
  | .loop name iterable body =>
      word "FOR" :: word name :: word "IN" ::
        (iterable.tokens ++ word "DO" :: (tokensOfStmts body ++ [word "END"]))
  | .ret none => [word "RETURN", mark ";"]
  | .ret (some value) => word "RETURN" :: (value.tokens ++ [mark ";"])
  | .perform expression => expression.tokens ++ [mark ";"]
  | .assign target value => target.tokens ++ mark "=" :: (value.tokens ++ [mark ";"])

/-- The tokens of several statements. -/
def tokensOfStmts : List Stmt → List Token
  | [] => []
  | s :: rest => s.tokens ++ tokensOfStmts rest

end

/-- Whether a name is an identifier. -/
def isIdentifier (name : String) : Bool :=
  match name.toList with
  | [] => false
  | c :: rest => Token.isNameStart c && rest.all Token.isNamePart

/-- Whether the operators of a layer need no parentheses on a level. -/
def Parser.Layer.within (level : Option Layer) (layer : Layer) : Bool :=
  depth (some layer) ≤ depth level

mutual

/-- Whether an expression can be printed on a level. -/
def Expr.printable : (level : Option Layer) → Expr → Bool
  | _, .literal value => value.expressible
  | _, .group inner => inner.printable (some .logical)
  | level, .binary operator left right =>
      match operator.layer? with
      | none => false
      | some layer =>
          layer.within level && (left.printable (some layer) && right.printable layer.tighter)
  | _, .name name => isIdentifier name
  | _, .property receiver name => receiver.printable none && isIdentifier name
  | _, .call name arguments => isIdentifier name && printableExprs arguments
  | _, .method receiver name arguments =>
      receiver.printable none && (isIdentifier name && printableExprs arguments)
  | _, .object name fields methods =>
      name.all isIdentifier && (printableDeclarations fields && printableDefinitions methods)

/-- Whether several expressions can be printed. -/
def printableExprs : List Expr → Bool
  | [] => true
  | e :: rest => e.printable (some .logical) && printableExprs rest

/-- Whether an optional expression can be printed. -/
def printableOption : Option Expr → Bool
  | none => true
  | some e => e.printable (some .logical)

/-- Whether a declaration can be printed. -/
def Declaration.printable : Declaration → Bool
  | { name, value } => isIdentifier name && printableOption value

/-- Whether several declarations can be printed. -/
def printableDeclarations : List Declaration → Bool
  | [] => true
  | d :: rest => d.printable && printableDeclarations rest

/-- Whether a definition can be printed. -/
def Definition.printable : Definition → Bool
  | { name, parameters, body } =>
      isIdentifier name && (parameters.all isIdentifier && printableStmts body)

/-- Whether several definitions can be printed. -/
def printableDefinitions : List Definition → Bool
  | [] => true
  | d :: rest => d.printable && printableDefinitions rest

/-- Whether a statement can be printed. -/
def Stmt.printable : Stmt → Bool
  | .declare d => d.printable
  | .define d => d.printable
  | .branch condition thenBody elseBody =>
      condition.printable (some .logical) && (printableStmts thenBody && printableStmts elseBody)
  | .loop name iterable body =>
      isIdentifier name && (iterable.printable (some .logical) && printableStmts body)
  | .ret value => printableOption value
  | .perform expression => expression.printable (some .logical)
  | .assign target value =>
      target.isTarget && (target.printable (some .logical) && value.printable (some .logical))

/-- Whether several statements can be printed. -/
def printableStmts : List Stmt → Bool
  | [] => true
  | s :: rest => s.printable && printableStmts rest

end

/-- The tokens that a tree is printed as. -/
def Node.tokens : Node → List Token
  | .source statements => tokensOfStmts statements
  | .stmt statement => statement.tokens
  | .expr expression => expression.tokens

/-- The source that a tree is printed as. -/
def Node.print (tree : Node) : String :=
  String.ofList (Token.spaced tree.tokens)

/-- Whether a tree can be printed for a start rule. -/
def Node.printable : Rule → Node → Bool
  | .source, .source statements => printableStmts statements
  | .statement, .stmt statement => statement.printable
  | .expression, .expr expression => expression.printable (some .logical)
  | _, _ => false

end ProtoScript
