import ProtoScript.Literal.Basic

/-!
# Program trees

Expressions and statements. A tree may hold operators and assignment targets that no source can
spell; evaluation rejects them.
-/

namespace ProtoScript

/-- Binary operators. -/
inductive Operator
  | and
  | or
  | equal
  | unequal
  | less
  | lessEqual
  | greater
  | greaterEqual
  | add
  | subtract
  | multiply
  | divide
  /-- A symbol that is no operator of the language. -/
  | unknown (symbol : String)
  deriving DecidableEq, Repr, Inhabited

namespace Operator

/-- The spelling of an operator. -/
def symbol : Operator → String
  | and => "AND"
  | or => "OR"
  | equal => "=="
  | unequal => "!="
  | less => "<"
  | lessEqual => "<="
  | greater => ">"
  | greaterEqual => ">="
  | add => "+"
  | subtract => "-"
  | multiply => "*"
  | divide => "/"
  | unknown symbol => symbol

/-- The operator with the given spelling. -/
def ofSymbol : String → Operator
  | "AND" => and
  | "OR" => or
  | "==" => equal
  | "!=" => unequal
  | "<" => less
  | "<=" => lessEqual
  | ">" => greater
  | ">=" => greaterEqual
  | "+" => add
  | "-" => subtract
  | "*" => multiply
  | "/" => divide
  | symbol => unknown symbol

/-- Reading a spelling loses nothing. -/
theorem symbol_ofSymbol (text : String) : (ofSymbol text).symbol = text := by
  unfold ofSymbol
  split <;> rfl

end Operator

mutual

/-- Expressions. -/
inductive Expr
  | literal (value : Literal)
  | group (inner : Expr)
  | binary (operator : Operator) (left right : Expr)
  | name (name : String)
  | property (receiver : Expr) (name : String)
  | call (name : String) (arguments : List Expr)
  | method (receiver : Expr) (name : String) (arguments : List Expr)
  | object (name : Option String) (fields : List Declaration) (methods : List Definition)

/-- Statements. -/
inductive Stmt
  | declare (declaration : Declaration)
  | define (definition : Definition)
  | branch (condition : Expr) (thenBody elseBody : List Stmt)
  | loop (name : String) (iterable : Expr) (body : List Stmt)
  | ret (value : Option Expr)
  | perform (expression : Expr)
  | assign (target value : Expr)

/-- A new variable with an optional first value. -/
structure Declaration where
  name : String
  value : Option Expr

/-- A named function. -/
structure Definition where
  name : String
  parameters : List String
  body : List Stmt

end

/-- The form of an expression, as messages call it. -/
def Expr.form : Expr → String
  | .literal _ => "Literal"
  | .group _ => "Group"
  | .binary .. => "Binary"
  | .name _ => "Variable"
  | .property .. => "Property"
  | .call .. => "Function"
  | .method .. => "Method"
  | .object .. => "ObjectExpr"

/-- Whether an expression can stand left of an assignment. -/
def Expr.isTarget : Expr → Bool
  | .name _ | .property .. => true
  | _ => false

/-- A piece of program that can be evaluated by itself and blamed for an error. -/
inductive Node
  | source (statements : List Stmt)
  | stmt (statement : Stmt)
  | expr (expression : Expr)

instance : Inhabited Expr := ⟨.literal .nil⟩
instance : Inhabited Stmt := ⟨.ret none⟩
instance : Inhabited Node := ⟨.source []⟩

end ProtoScript
