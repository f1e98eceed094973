import ProtoScript.Proofs.Tree.Decision

/-!
# How the rules are built

Every rule of the parser is a sequence of steps that the next token decides. A property that these steps
have and that sequences keep is thus a property of every rule. The induction is on the room, with one case
for each rule.
-/

namespace ProtoScript.Grammar
open ProtoScript.Parser

variable {α β : Type}

/-- The texts that the parser looks for, operators apart. -/
def landmarks : List String :=
  ["LET", "DEF", "DO", "END", "IF", "ELSE", "FOR", "IN", "RETURN", "OBJECT", "=", ";", ",", ".", "(", ")"]

/-- The verdicts that the steps of the parser follow. -/
inductive Verdict.InUse : {α : Type} → (Option Token → Verdict α) → Prop
  | text {text : String} (h : text ∈ landmarks) : InUse (Verdict.text text)
  | seen {text : String} (h : text ∈ landmarks) : InUse (Verdict.seen text)
  | expected {text : String} (h : text ∈ landmarks) : InUse (Verdict.expected text)
  | name : InUse Verdict.name
  | expectedName (role : NameRole) : InUse (Verdict.expectedName role)
  | operator (layer : Layer) : InUse (Verdict.operator layer)
  | literal : InUse Verdict.literal
  | closing {closers : List String} (h : closers ⊆ landmarks) : InUse (Verdict.closing closers)
  | ending : InUse Verdict.ending
  | ended : InUse Verdict.ended
  | refused {α : Type} {cause : Misfit} (h : cause ∈ [.target, .notExpression, .notMember]) :
      InUse fun _ => (.misfit cause : Verdict α)

/-- The parsers that are built from these steps. -/
inductive Built : {α : Type} → Parse α → Prop
  | pure {α : Type} (a : α) : Built (Pure.pure a)
  | bind {α β : Type} {p : Parse α} {f : α → Parse β} (h : Built p) (hf : ∀ a, Built (f a)) :
      Built (p >>= f)
  | step {α : Type} {verdict : Option Token → Verdict α} (h : Verdict.InUse verdict) :
      Built (decideBy verdict)
  | tooDeep {α : Type} : Built (throw .tooDeep : Parse α)

namespace Built

theorem map (g : α → β) {p : Parse α} (h : Built p) : Built (g <$> p) := by
  rw [map_eq_pure_bind]
  exact h.bind fun a => .pure _

theorem ite {c : Prop} [Decidable c] {p q : Parse α} (hp : Built p) (hq : Built q) :
    Built (if c then p else q) := by
  split
  · exact hp
  · exact hq

theorem fail {cause : Misfit} (h : cause ∈ [.target, .notExpression, .notMember]) :
    Built (Parser.fail cause : Parse α) :=
  .step (.refused h)

theorem accept (text : String) (h : text ∈ landmarks) : Built (Parser.accept text) := by
  rw [accept_eq]
  exact .step (.text h)

theorem look (text : String) (h : text ∈ landmarks) : Built (looksAt text) :=
  .step (.seen h)

theorem expect (text : String) (h : text ∈ landmarks) : Built (Parser.expect text) := by
  rw [expect_eq]
  exact .step (.expected h)

theorem acceptName : Built Parser.acceptName := by
  rw [acceptName_eq]
  exact .step .name

theorem name (role : NameRole) : Built (expectName role) := by
  rw [expectName_eq]
  exact .step (.expectedName role)

theorem acceptOperator (layer : Layer) : Built (Parser.acceptOperator layer) := by
  rw [acceptOperator_eq]
  exact .step (.operator layer)

theorem acceptLiteral : Built Parser.acceptLiteral := by
  rw [acceptLiteral_eq]
  exact .step .literal

/-- A last token. -/
theorem last (text : String) (h : text ∈ landmarks) (a : α) : Built (do Parser.expect text; return a) :=
  (expect text h).bind fun _ => .pure a

end Built

theorem built_parseMoreParameters (room : Nat) : Built (parseMoreParameters room) := by
  induction room with
  | zero => exact .tooDeep
  | succ room ih =>
      refine (Built.accept "," (by decide)).bind fun found => .ite ?_ (.pure _)
      exact (Built.name _).bind fun name => ih.bind fun names => .pure _

theorem built_parseParameters (room : Nat) : Built (parseParameters room) := by
  refine (Built.expect "(" (by decide)).bind fun _ => Built.acceptName.bind fun name => ?_
  cases name with
  | none => exact (Built.pure _).bind fun names => .last ")" (by decide) names
  | some name =>
      refine (built_parseMoreParameters room).bind fun names => ?_
      exact (Built.pure _).bind fun names => .last ")" (by decide) names

/-- With `room` to spare every rule is built from the steps. -/
structure BuiltAt (room : Nat) : Prop where
  statement : Built (parseStatement room)
  block (closers : List String) (h : closers ⊆ landmarks) :
    Built (parseBlock room closers)
  declaration : Built (parseDeclaration room)
  definition : Built (parseDefinition room)
  expression (layer : Layer) : Built (parseExpression room layer)
  chain (layer : Layer) (left : Expr) : Built (parseChain room layer left)
  secondary : Built (parseSecondary room)
  suffixes (receiver : Expr) : Built (parseMembers room receiver)
  arguments : Built (parseArguments room)
  moreArguments : Built (parseMoreArguments room)
  primary : Built (parsePrimary room)
  members : Built (parseObjectMembers room)

namespace BuiltAt
variable {room : Nat} (h : BuiltAt room)
include h

theorem operand (level : Option Layer) : Built (parseOperand room level) := by
  cases level with
  | none => exact h.secondary
  | some layer => exact h.expression layer

theorem declaration_succ : Built (parseDeclaration (room + 1)) := by
  refine (Built.expect _ (by decide)).bind fun _ => (Built.name _).bind fun name => ?_
  refine (Built.accept "=" (by decide)).bind fun found => .ite ?_ ?_
  · exact ((h.expression .logical).map some).bind fun value => .last ";" (by decide) _
  · exact (Built.pure _).bind fun value => .last ";" (by decide) _

theorem definition_succ : Built (parseDefinition (room + 1)) := by
  refine (Built.expect _ (by decide)).bind fun _ => (Built.name _).bind fun name => ?_
  refine (built_parseParameters room).bind fun parameters => (Built.expect _ (by decide)).bind fun _ => ?_
  exact (h.block ["END"] (by decide)).bind fun body => .last "END" (by decide) _

theorem block_succ (closers : List String) (hc : closers ⊆ landmarks) :
    Built (parseBlock (room + 1) closers) := by
  rw [parseBlock_succ]
  refine (Built.step (.closing hc)).bind fun closed => .ite (.pure _) ?_
  exact h.statement.bind fun first => (h.block closers hc).bind fun rest => .pure _

theorem expression_succ (layer : Layer) : Built (parseExpression (room + 1) layer) := by
  rw [parseExpression_succ]
  exact (h.operand _).bind fun first => h.chain layer first

theorem chain_succ (layer : Layer) (left : Expr) : Built (parseChain (room + 1) layer left) := by
  rw [parseChain_succ]
  refine (Built.acceptOperator layer).bind fun operator => ?_
  cases operator with
  | none => exact .pure _
  | some operator => exact (h.operand _).bind fun right => h.chain layer _

theorem secondary_succ : Built (parseSecondary (room + 1)) :=
  h.primary.bind fun receiver => h.suffixes receiver

theorem suffixes_succ (receiver : Expr) : Built (parseMembers (room + 1) receiver) := by
  refine (Built.accept "." (by decide)).bind fun found => .ite ((Built.name _).bind fun name => ?_) (.pure _)
  refine (Built.look "(" (by decide)).bind fun called => .ite ?_ (h.suffixes _)
  exact h.arguments.bind fun arguments => h.suffixes _

theorem arguments_succ : Built (parseArguments (room + 1)) := by
  refine (Built.expect _ (by decide)).bind fun _ => ?_
  refine (Built.accept ")" (by decide)).bind fun empty => .ite (.pure _) ?_
  exact (h.expression .logical).bind fun first => h.moreArguments.bind fun more => .last ")" (by decide) _

theorem moreArguments_succ : Built (parseMoreArguments (room + 1)) := by
  refine (Built.accept "," (by decide)).bind fun found => .ite ?_ (.pure _)
  exact (h.expression .logical).bind fun first => h.moreArguments.bind fun more => .pure _

/-- An object behind its first word. -/
theorem object : Built (do
    let name ← acceptObjectName
    expect "DO"
    let (fields, methods) ← parseObjectMembers room
    expect "END"
    return Expr.object name fields methods) := by
  have hname : Built acceptObjectName :=
    (Built.look "DO" (by decide)).bind fun atBody => .ite (.pure _) .acceptName
  refine hname.bind fun name => (Built.expect "DO" (by decide)).bind fun _ => ?_
  exact h.members.bind fun members => .last "END" (by decide) _

/-- A group behind its parenthesis. -/
theorem group : Built (do
    let inner ← parseExpression room .logical
    expect ")"
    return Expr.group inner) :=
  (h.expression .logical).bind fun inner => .last ")" (by decide) _

/-- A call or a name, behind a name that was looked for. -/
theorem reference (name : Option String) : Built (do
    match name with
    | some name =>
        if ← looksAt "(" then return Expr.call name (← parseArguments room)
        else return Expr.name name
    | none => fail .notExpression) := by
  cases name with
  | none => exact .fail (by decide)
  | some name =>
      refine (Built.look "(" (by decide)).bind fun called => .ite ?_ (.pure _)
      exact h.arguments.bind fun arguments => .pure _

/-- What is tried if no literal comes next. -/
theorem compound : Built (do
    if ← accept "(" then
      let inner ← parseExpression room .logical
      expect ")"
      return Expr.group inner
    else if ← accept "OBJECT" then
      let name ← acceptObjectName
      expect "DO"
      let (fields, methods) ← parseObjectMembers room
      expect "END"
      return .object name fields methods
    else
      match ← acceptName with
      | some name =>
          if ← looksAt "(" then return .call name (← parseArguments room)
          else return .name name
      | none => fail .notExpression) := by
  refine (Built.accept "(" (by decide)).bind fun grouped => .ite h.group ?_
  refine (Built.accept "OBJECT" (by decide)).bind fun isObject => .ite h.object ?_
  exact Built.acceptName.bind h.reference

theorem primary_succ : Built (parsePrimary (room + 1)) := by
  refine Built.acceptLiteral.bind fun value => ?_
  cases value with
  | some value => exact .pure _
  | none => exact h.compound

theorem members_succ : Built (parseObjectMembers (room + 1)) := by
  refine (Built.look "END" (by decide)).bind fun atEnd => .ite (.pure _) ?_
  refine (Built.look "LET" (by decide)).bind fun atField => .ite ?_ ?_
  · exact h.declaration.bind fun d => h.members.bind fun members => .pure _
  refine (Built.look "DEF" (by decide)).bind fun atMethod => .ite ?_ (.fail (by decide))
  exact h.definition.bind fun d => h.members.bind fun members => .pure _

theorem assignment (expression : Expr) : Built (do
    if ← looksAt "=" then
      unless expression.isTarget do
        fail .target
      advance
      let value ← parseExpression room .logical
      expect ";"
      return Stmt.assign expression value
    else
      expect ";"
      return Stmt.perform expression) := by
  rw [assignment_eq]
  refine .ite ?_ ?_
  · refine (Built.accept "=" (by decide)).bind fun found => .ite ?_ (.last ";" (by decide) _)
    exact (h.expression .logical).bind fun value => .last ";" (by decide) _
  · refine (Built.look "=" (by decide)).bind fun found => .ite ?_ (.last ";" (by decide) _)
    exact .fail (by decide)

theorem statement_succ : Built (parseStatement (room + 1)) := by
  refine (Built.look "LET" (by decide)).bind fun atLet => .ite (h.declaration.bind fun d => .pure _) ?_
  refine (Built.look "DEF" (by decide)).bind fun atDef => .ite (h.definition.bind fun d => .pure _) ?_
  refine (Built.accept "IF" (by decide)).bind fun branch => .ite ?_ ?_
  · refine (h.expression .logical).bind fun condition => (Built.expect _ (by decide)).bind fun _ => ?_
    refine (h.block _ (by decide)).bind fun thenBody => ?_
    refine (Built.accept "ELSE" (by decide)).bind fun found => .ite ?_ ?_
    · exact (h.block _ (by decide)).bind fun elseBody => .last "END" (by decide) _
    · exact (Built.pure _).bind fun elseBody => .last "END" (by decide) _
  refine (Built.accept "FOR" (by decide)).bind fun loop => .ite ?_ ?_
  · refine (Built.name _).bind fun name => (Built.expect _ (by decide)).bind fun _ => ?_
    refine (h.expression .logical).bind fun iterable => (Built.expect _ (by decide)).bind fun _ => ?_
    exact (h.block _ (by decide)).bind fun body => .last "END" (by decide) _
  refine (Built.accept "RETURN" (by decide)).bind fun returned => .ite ?_ ?_
  · have hbehind (value : Option Expr) : Built (do
        if ← accept "IF" then
          let condition ← parseExpression room .logical
          expect ";"
          return Stmt.branch condition [.ret value] []
        else
          expect ";"
          return Stmt.ret value) := by
      refine (Built.accept "IF" (by decide)).bind fun found => .ite ?_ (.last ";" (by decide) _)
      exact (h.expression .logical).bind fun condition => .last ";" (by decide) _
    refine (Built.look ";" (by decide)).bind fun atEnd => (Built.look "IF" (by decide)).bind fun atIf => ?_
    refine (Built.pure _).bind fun bare => .ite ?_ ?_
    · exact (Built.pure _).bind hbehind
    · exact ((h.expression .logical).map some).bind hbehind
  · exact (h.expression .logical).bind h.assignment

end BuiltAt

theorem builtAt (room : Nat) : BuiltAt room := by
  induction room with
  | zero =>
      exact {
        statement := .tooDeep
        block := fun _ _ => .tooDeep
        declaration := .tooDeep
        definition := .tooDeep
        expression := fun _ => .tooDeep
        chain := fun _ _ => .tooDeep
        secondary := .tooDeep
        suffixes := fun _ => .tooDeep
        arguments := .tooDeep
        moreArguments := .tooDeep
        primary := .tooDeep
        members := .tooDeep }
  | succ room h =>
      exact {
        statement := h.statement_succ
        block := h.block_succ
        declaration := h.declaration_succ
        definition := h.definition_succ
        expression := h.expression_succ
        chain := h.chain_succ
        secondary := h.secondary_succ
        suffixes := h.suffixes_succ
        arguments := h.arguments_succ
        moreArguments := h.moreArguments_succ
        primary := h.primary_succ
        members := h.members_succ }

theorem built_parseSource (room : Nat) : Built (parseSource room) := by
  induction room with
  | zero => exact .tooDeep
  | succ room ih =>
      rw [parseSource_succ]
      refine (Built.step .ending).bind fun ended => .ite (.pure _) ?_
      exact (builtAt room).statement.bind fun first => ih.bind fun rest => .pure _

theorem built_parseWhole (room : Nat) (rule : Rule) : Built (parseWhole room rule) := by
  have hrule : Built (parseRule room rule) := by
    cases rule with
    | source => exact (built_parseSource room).map _
    | statement => exact (builtAt room).statement.map _
    | expression => exact ((builtAt room).expression .logical).map _
  rw [parseWhole_eq]
  exact hrule.bind fun node => (Built.step .ended).bind fun _ => .pure _

end ProtoScript.Grammar
