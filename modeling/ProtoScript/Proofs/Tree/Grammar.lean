import ProtoScript.Proofs.Token.Shape
import ProtoScript.Tree.Parser

/-!
# The grammar

The grammar says which token lists spell which tree, without a parser. Every symbol has its own kind of
tree, and a rule joins the tokens of its parts. Repetition gives a list; chains of operators and of
members are folded from the left.

```
statements   statement*
declaration  'LET' name ('=' expression)? ';'
definition   'DEF' name '(' (name (',' name)*)? ')' 'DO' statements 'END'
optional     expression?
operand      of a layer: operand of the next tighter layer, then operands; innermost: primary, then suffixes
operands     (operator operand)*
suffixes     ('.' name arguments?)*
members      (declaration | definition)*
```
-/

namespace ProtoScript

/-- The words that the grammar spells out. -/
def keywords : List String :=
  ["LET", "DEF", "DO", "END", "IF", "ELSE", "FOR", "IN", "RETURN", "AND", "OR", "NIL", "TRUE", "FALSE",
    "OBJECT"]

mutual

/-- The names that an expression uses or introduces. -/
def Expr.names : Expr → List String
  | .literal _ => []
  | .group inner => inner.names
  | .binary _ left right => left.names ++ right.names
  | .name name => [name]
  | .property receiver name => receiver.names ++ [name]
  | .call name arguments => name :: namesOfExprs arguments
  | .method receiver name arguments => receiver.names ++ name :: namesOfExprs arguments
  | .object name fields methods =>
      name.toList ++ (namesOfDeclarations fields ++ namesOfDefinitions methods)

/-- The names in several expressions. -/
def namesOfExprs : List Expr → List String
  | [] => []
  | e :: rest => e.names ++ namesOfExprs rest

/-- The names in an optional expression. -/
def namesOfOption : Option Expr → List String
  | none => []
  | some e => e.names

/-- The names in a declaration. -/
def Declaration.names : Declaration → List String
  | { name, value } => name :: namesOfOption value

/-- The names in several declarations. -/
def namesOfDeclarations : List Declaration → List String
  | [] => []
  | d :: rest => d.names ++ namesOfDeclarations rest

/-- The names in a definition. -/
def Definition.names : Definition → List String
  | { name, parameters, body } => name :: (parameters ++ namesOfStmts body)

/-- The names in several definitions. -/
def namesOfDefinitions : List Definition → List String
  | [] => []
  | d :: rest => d.names ++ namesOfDefinitions rest

/-- The names in a statement. -/
def Stmt.names : Stmt → List String
  | .declare d => d.names
  | .define d => d.names
  | .branch condition thenBody elseBody =>
      condition.names ++ (namesOfStmts thenBody ++ namesOfStmts elseBody)
  | .loop name iterable body => name :: (iterable.names ++ namesOfStmts body)
  | .ret value => namesOfOption value
  | .perform expression => expression.names
  | .assign target value => target.names ++ value.names

/-- The names in several statements. -/
def namesOfStmts : List Stmt → List String
  | [] => []
  | s :: rest => s.names ++ namesOfStmts rest

end

/-- The names in a tree. -/
def Node.names : Node → List String
  | .source statements => namesOfStmts statements
  | .stmt statement => statement.names
  | .expr expression => expression.names

/-- None of the names is a keyword. -/
def KeywordFree (names : List String) : Prop :=
  ∀ name ∈ names, name ∉ keywords

namespace Grammar
open ProtoScript.Parser

/-- The token of a keyword or a name. -/
def word (text : String) : Token :=
  ⟨.identifier, text⟩

/-- The token of a symbol. -/
def mark (text : String) : Token :=
  ⟨.operator, text⟩

/-- The token of an operator of a layer. -/
def operatorToken : Layer → String → Token
  | .logical => word
  | .comparison | .additive | .multiplicative => mark

/-- Which token is a literal, and of which value. -/
inductive Denotes : Token → Literal → Prop
  | nil : Denotes (word "NIL") .nil
  | true : Denotes (word "TRUE") (.bool true)
  | false : Denotes (word "FALSE") (.bool false)
  | number {token value} (hk : token.kind = .integer ∨ token.kind = .decimal)
      (hv : Literal.ofNumber token = .ok value) : Denotes token value
  | character (text : String) : Denotes ⟨.character, text⟩ (.character (Literal.decode text))
  | string (text : String) : Denotes ⟨.string, text⟩ (.string (Literal.decode text))

/-- Names, each behind a comma. -/
def moreParameters : List String → List Token
  | [] => []
  | name :: rest => mark "," :: word name :: moreParameters rest

/-- The parameters of a function with their parentheses. -/
def parameters : List String → List Token
  | [] => [mark "(", mark ")"]
  | name :: rest => mark "(" :: word name :: (moreParameters rest ++ [mark ")"])

/-- The symbols of the grammar. -/
inductive Symbol
  | statement
  | statements
  | declaration
  | definition
  | optional
  /-- An operand of the next looser layer; a layer is the operand of the one outside it. -/
  | operand (level : Option Layer)
  | operands (layer : Layer)
  | primary
  | suffixes
  | arguments
  | moreArguments
  | members

/-- Whole expressions. -/
abbrev Symbol.expression : Symbol :=
  .operand (some .logical)

/-- What a symbol spells. -/
abbrev Symbol.Tree : Symbol → Type
  | statement => Stmt
  | statements => List Stmt
  | declaration => Declaration
  | definition => Definition
  | optional => Option Expr
  | operand _ | primary => Expr
  | operands _ => List (Operator × Expr)
  | suffixes => List (String × Option (List Expr))
  | arguments | moreArguments => List Expr
  | members => List (Declaration ⊕ Definition)

/-- Applies operators from the left. -/
def applyOperands (left : Expr) (items : List (Operator × Expr)) : Expr :=
  items.foldl (fun left item => .binary item.1 left item.2) left

/-- A property, or the call of a method. -/
def applySuffix (receiver : Expr) : String × Option (List Expr) → Expr
  | (name, none) => .property receiver name
  | (name, some arguments) => .method receiver name arguments

/-- Applies suffixes from the left. -/
def applySuffixes (receiver : Expr) (items : List (String × Option (List Expr))) : Expr :=
  items.foldl applySuffix receiver

/-- The fields among the members of an object, in order. -/
def fieldsOf (members : List (Declaration ⊕ Definition)) : List Declaration :=
  members.filterMap Sum.getLeft?

/-- The methods among the members of an object, in order. -/
def methodsOf (members : List (Declaration ⊕ Definition)) : List Definition :=
  members.filterMap Sum.getRight?

@[simp] theorem fieldsOf_inl (d : Declaration) (items : List (Declaration ⊕ Definition)) :
    fieldsOf (.inl d :: items) = d :: fieldsOf items := rfl

@[simp] theorem fieldsOf_inr (d : Definition) (items : List (Declaration ⊕ Definition)) :
    fieldsOf (.inr d :: items) = fieldsOf items := rfl

@[simp] theorem methodsOf_inl (d : Declaration) (items : List (Declaration ⊕ Definition)) :
    methodsOf (.inl d :: items) = methodsOf items := rfl

@[simp] theorem methodsOf_inr (d : Definition) (items : List (Declaration ⊕ Definition)) :
    methodsOf (.inr d :: items) = d :: methodsOf items := rfl

/-- The tokens of an object's name, if it has one. -/
def objectName (name : Option String) : List Token :=
  name.toList.map word

/-- Which tokens spell which tree of a symbol. -/
inductive Derives : (symbol : Symbol) → List Token → symbol.Tree → Prop
  | noStatement : Derives .statements [] []
  | statements {ts us first rest} (hf : Derives .statement ts first)
      (hr : Derives .statements us rest) : Derives .statements (ts ++ us) (first :: rest)
  | declare {ts d} (hd : Derives .declaration ts d) : Derives .statement ts (.declare d)
  | define {ts d} (hd : Derives .definition ts d) : Derives .statement ts (.define d)
  | branch {cs ts condition body} (hc : Derives .expression cs condition)
      (ht : Derives .statements ts body) :
      Derives .statement (word "IF" :: (cs ++ word "DO" :: (ts ++ [word "END"])))
        (.branch condition body [])
  | branchElse {cs ts es condition thenBody elseBody} (hc : Derives .expression cs condition)
      (ht : Derives .statements ts thenBody) (he : Derives .statements es elseBody) :
      Derives .statement
        (word "IF" :: (cs ++ word "DO" :: (ts ++ word "ELSE" :: (es ++ [word "END"]))))
        (.branch condition thenBody elseBody)
  | loop {is ts iterable body} (name : String) (hi : Derives .expression is iterable)
      (hb : Derives .statements ts body) :
      Derives .statement
        (word "FOR" :: word name :: word "IN" :: (is ++ word "DO" :: (ts ++ [word "END"])))
        (.loop name iterable body)
  | ret {vs value} (hv : Derives .optional vs value) :
      Derives .statement (word "RETURN" :: (vs ++ [mark ";"])) (.ret value)
  | retIf {vs cs value condition} (hv : Derives .optional vs value)
      (hc : Derives .expression cs condition) :
      Derives .statement (word "RETURN" :: (vs ++ word "IF" :: (cs ++ [mark ";"])))
        (.branch condition [.ret value] [])
  | perform {ts e} (he : Derives .expression ts e) :
      Derives .statement (ts ++ [mark ";"]) (.perform e)
  | assign {ts vs target value} (ht : Derives .expression ts target)
      (ha : target.isTarget = true) (hv : Derives .expression vs value) :
      Derives .statement (ts ++ mark "=" :: (vs ++ [mark ";"])) (.assign target value)
  | letBare (name : String) :
      Derives .declaration [word "LET", word name, mark ";"] { name, value := none }
  | letValue {ts value} (name : String) (hv : Derives .expression ts value) :
      Derives .declaration (word "LET" :: word name :: mark "=" :: (ts ++ [mark ";"]))
        { name, value := some value }
  | definition {ts body} (name : String) (names : List String)
      (hb : Derives .statements ts body) :
      Derives .definition
        (word "DEF" :: word name :: (parameters names ++ word "DO" :: (ts ++ [word "END"])))
        { name, parameters := names, body }
  | noValue : Derives .optional [] none
  | value {ts e} (he : Derives .expression ts e) : Derives .optional ts (some e)
  | chain {layer : Layer} {ts us first items} (hf : Derives (.operand layer.tighter) ts first)
      (hi : Derives (.operands layer) us items) :
      Derives (.operand (some layer)) (ts ++ us) (applyOperands first items)
  | noOperand (layer : Layer) : Derives (.operands layer) [] []
  | operands {layer : Layer} {ts us right items} (symbol : String) (hs : symbol ∈ layer.symbols)
      (hr : Derives (.operand layer.tighter) ts right) (hi : Derives (.operands layer) us items) :
      Derives (.operands layer) (operatorToken layer symbol :: (ts ++ us))
        ((Operator.ofSymbol symbol, right) :: items)
  | secondary {ts us receiver items} (hp : Derives .primary ts receiver)
      (hi : Derives .suffixes us items) :
      Derives (.operand none) (ts ++ us) (applySuffixes receiver items)
  | noSuffix : Derives .suffixes [] []
  | property {us items} (name : String) (hi : Derives .suffixes us items) :
      Derives .suffixes (mark "." :: word name :: us) ((name, none) :: items)
  | method {as us arguments items} (name : String) (ha : Derives .arguments as arguments)
      (hi : Derives .suffixes us items) :
      Derives .suffixes (mark "." :: word name :: (as ++ us)) ((name, some arguments) :: items)
  | noArgument : Derives .arguments [mark "(", mark ")"] []
  | arguments {ts us first more} (hf : Derives .expression ts first)
      (hm : Derives .moreArguments us more) :
      Derives .arguments (mark "(" :: (ts ++ (us ++ [mark ")"]))) (first :: more)
  | noMoreArgument : Derives .moreArguments [] []
  | moreArguments {ts us first more} (hf : Derives .expression ts first)
      (hm : Derives .moreArguments us more) :
      Derives .moreArguments (mark "," :: (ts ++ us)) (first :: more)
  | literal {token value} (h : Denotes token value) : Derives .primary [token] (.literal value)
  | group {ts e} (he : Derives .expression ts e) :
      Derives .primary (mark "(" :: (ts ++ [mark ")"])) (.group e)
  | object {ms items} (name : Option String) (hm : Derives .members ms items) :
      Derives .primary
        (word "OBJECT" :: (objectName name ++ word "DO" :: (ms ++ [word "END"])))
        (.object name (fieldsOf items) (methodsOf items))
  | call {as arguments} (name : String) (ha : Derives .arguments as arguments) :
      Derives .primary (word name :: as) (.call name arguments)
  | name (name : String) : Derives .primary [word name] (.name name)
  | noMember : Derives .members [] []
  | field {ts us d items} (hd : Derives .declaration ts d) (hi : Derives .members us items) :
      Derives .members (ts ++ us) (.inl d :: items)
  | ownMethod {ts us d items} (hd : Derives .definition ts d) (hi : Derives .members us items) :
      Derives .members (ts ++ us) (.inr d :: items)

/-- Which tokens spell which tree by a start rule. -/
def Spells : Rule → List Token → Node → Prop
  | .source, ts, .source statements => Derives .statements ts statements
  | .statement, ts, .stmt statement => Derives .statement ts statement
  | .expression, ts, .expr expression => Derives .expression ts expression
  | _, _, _ => False

end Grammar

end ProtoScript
