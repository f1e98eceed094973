import ProtoScript.Proofs.Tree.Lookahead

/-!
# Parsing input that goes on

A rule of the parser looks at one token beyond those it takes. So as long as it leaves a token it does
the same on longer input. A statement ends in a token of its own, and the rule for statements does not
look beyond that token: two programs in a row are parsed to the statements of both.
-/

namespace ProtoScript.Grammar
open ProtoScript.Parser

variable {α β : Type}

/-- What `p` does while it leaves a token, `q` does whatever comes behind. -/
def Extends (p q : Parse α) : Prop :=
  ∀ ts a rest, Runs p ts a rest → rest ≠ [] →
    rest.length ≤ ts.length ∧ ∀ more, Runs q (ts ++ more) a (rest ++ more)

/-- What `p` does, `q` does whatever comes behind: a last token is taken, and no look goes beyond it. -/
def Finishes (p q : Parse α) : Prop :=
  ∀ ts a rest, Runs p ts a rest →
    rest.length < ts.length ∧ ∀ more, Runs q (ts ++ more) a (rest ++ more)

/-- A sequence that runs has a token list in its middle. -/
theorem Runs.split {p : Parse α} {f : α → Parse β} {ts rest : List Token} {b : β}
    (h : Runs (p >>= f) ts b rest) : ∃ a mid, Runs p ts a mid ∧ Runs (f a) mid b rest := by
  cases ha : p ts with
  | error stop =>
      have herror : (p >>= f) ts = .error stop := by simp [Bind.bind, StateT.bind, ha, Except.bind]
      rw [Runs, herror] at h
      cases h
  | ok r =>
      obtain ⟨a, mid⟩ := r
      have hsequence : (p >>= f) ts = f a mid := by simp [Bind.bind, StateT.bind, ha, Except.bind]
      exact ⟨a, mid, ha, hsequence.symm.trans h⟩

theorem Finishes.extends {p q : Parse α} (h : Finishes p q) : Extends p q := by
  intro ts a rest hr _
  obtain ⟨hlt, hq⟩ := h ts a rest hr
  exact ⟨Nat.le_of_lt hlt, hq⟩

namespace Extends

theorem pure (a : α) : Extends (Pure.pure a) (Pure.pure a) := by
  intro ts b rest hr _
  cases hr
  exact ⟨Nat.le_refl _, fun _ => rfl⟩

theorem fail (cause : Misfit) {q : Parse α} : Extends (Parser.fail cause) q := by
  intro ts a rest hr
  cases hr

theorem bind {p p' : Parse α} {f f' : α → Parse β} (hp : Extends p p')
    (hf : ∀ a, Extends (f a) (f' a)) : Extends (p >>= f) (p' >>= f') := by
  intro ts b rest hr hrest
  obtain ⟨a, mid, hpr, hfr⟩ := hr.split
  obtain ⟨hle, hf'⟩ := hf a mid b rest hfr hrest
  -- The second step leaves a token, so the first one has left it, too.
  have hmid : mid ≠ [] := by
    rintro rfl
    exact hrest (List.length_eq_zero_iff.mp (Nat.le_zero.mp hle))
  obtain ⟨hle', hp'⟩ := hp ts a mid hpr hmid
  exact ⟨Nat.le_trans hle hle', fun more => (hp' more).bind (hf' more)⟩

/-- If the second step takes a last token, so does the sequence. -/
theorem finish {p p' : Parse α} {f f' : α → Parse β} (hp : Extends p p')
    (hf : ∀ a, Finishes (f a) (f' a)) : Finishes (p >>= f) (p' >>= f') := by
  intro ts b rest hr
  obtain ⟨a, mid, hpr, hfr⟩ := hr.split
  obtain ⟨hlt, hf'⟩ := hf a mid b rest hfr
  have hmid : mid ≠ [] := by
    rintro rfl
    cases hlt
  obtain ⟨hle, hp'⟩ := hp ts a mid hpr hmid
  exact ⟨Nat.lt_of_lt_of_le hlt hle, fun more => (hp' more).bind (hf' more)⟩

theorem map {p p' : Parse α} (g : α → β) (hp : Extends p p') : Extends (g <$> p) (g <$> p') := by
  rw [map_eq_pure_bind, map_eq_pure_bind]
  exact hp.bind fun _ => .pure _

theorem ite {c : Prop} [Decidable c] {p p' q q' : Parse α} (hp : Extends p p') (hq : Extends q q') :
    Extends (if c then p else q) (if c then p' else q') := by
  split
  · exact hp
  · exact hq

end Extends

namespace Finishes

theorem throw (stop : Stop) {q : Parse α} : Finishes (MonadExcept.throw stop) q := by
  intro ts a rest hr
  cases hr

/-- What follows the last token takes nothing. -/
theorem done {p p' : Parse α} (g : α → β) (hp : Finishes p p') :
    Finishes (p >>= fun a => pure (g a)) (p' >>= fun a => pure (g a)) := by
  intro ts b rest hr
  obtain ⟨a, mid, hpr, hfr⟩ := hr.split
  obtain ⟨hlt, hp'⟩ := hp ts a mid hpr
  cases hfr
  exact ⟨hlt, fun more => (hp' more).bind .pure⟩

theorem ite {c : Prop} [Decidable c] {p p' q q' : Parse α} (hp : Finishes p p')
    (hq : Finishes q q') : Finishes (if c then p else q) (if c then p' else q') := by
  split
  · exact hp
  · exact hq

end Finishes

section Tokens

/-- A look at the next token sees the same as long as there is one. -/
theorem extends_looksAt (text : String) : Extends (looksAt text) (looksAt text) := by
  intro ts found rest hr hrest
  cases hr
  obtain ⟨token, ts, rfl⟩ := List.exists_cons_of_ne_nil hrest
  exact ⟨Nat.le_refl _, fun _ => rfl⟩

theorem extends_advance : Extends advance advance := by
  intro ts _ rest hr hrest
  cases hr
  cases ts with
  | nil => exact absurd rfl hrest
  | cons token ts => exact ⟨by simp, fun _ => rfl⟩

theorem extends_accept (text : String) : Extends (accept text) (accept text) := by
  refine (extends_looksAt text).bind fun found => ?_
  exact .ite (extends_advance.bind fun _ => .pure _) (.pure _)

/-- A token that must be there is taken and not looked beyond. -/
theorem finishes_expect (text : String) : Finishes (expect text) (expect text) := by
  intro ts _ rest hr
  cases ts with
  | nil => cases hr
  | cons token ts =>
      obtain ⟨found, mid, ha, hf⟩ := Runs.split (p := accept text) hr
      rw [Runs, accept_apply] at ha
      by_cases htext : token.literal = text
      · subst htext
        have hexpect (us : List Token) : Runs (expect token.literal) (token :: us) () us :=
          .accept token .pure
        obtain rfl : ts = rest := congrArg Prod.snd (Except.ok.inj ((hexpect ts).symm.trans hr))
        exact ⟨by simp, fun more => hexpect (ts ++ more)⟩
      · simp only [List.head?_cons, Option.any_some, htext, decide_false, Bool.false_eq_true,
          if_false] at ha
        cases ha
        cases hf

theorem extends_acceptName : Extends acceptName acceptName := by
  intro ts name rest hr hrest
  cases ts with
  | nil =>
      cases hr
      exact absurd rfl hrest
  | cons token ts =>
      obtain ⟨kind, literal⟩ := token
      cases kind <;> cases hr <;> exact ⟨by simp, fun _ => rfl⟩

theorem finishes_expectName (role : NameRole) : Finishes (expectName role) (expectName role) := by
  intro ts name rest hr
  cases ts with
  | nil => cases hr
  | cons token ts =>
      obtain ⟨kind, literal⟩ := token
      cases kind <;> cases hr
      exact ⟨by simp, fun _ => rfl⟩

theorem extends_acceptObjectName : Extends acceptObjectName acceptObjectName :=
  (extends_looksAt "DO").bind fun _ => .ite (.pure _) extends_acceptName

theorem extends_acceptOperator (layer : Layer) :
    Extends (acceptOperator layer) (acceptOperator layer) := by
  intro ts operator rest hr hrest
  cases ts with
  | nil =>
      cases hr
      exact absurd rfl hrest
  | cons token ts =>
      rw [Runs, acceptOperator_cons] at hr
      split at hr
      · next hs =>
        cases hr
        refine ⟨by simp, fun more => ?_⟩
        rw [Runs, List.cons_append, acceptOperator_cons, if_pos hs]
      · next hs =>
        cases hr
        refine ⟨by simp, fun more => ?_⟩
        rw [Runs, List.cons_append, acceptOperator_cons, if_neg hs]

/-- Only the report of a number without value depends on what follows. -/
theorem literalValue?_eq {token : Token} {ts : List Token} (us : List Token) :
    (∀ value, literalValue? token ts = some (.ok value) → literalValue? token us = some (.ok value)) ∧
      (literalValue? token ts = none → literalValue? token us = none) := by
  grind [literalValue?, numberValue]

theorem extends_acceptLiteral : Extends acceptLiteral acceptLiteral := by
  intro ts value rest hr hrest
  cases ts with
  | nil =>
      cases hr
      exact absurd rfl hrest
  | cons token ts =>
      rw [Runs, acceptLiteral_cons] at hr
      split at hr
      · next v hv =>
        cases hr
        refine ⟨by simp, fun more => ?_⟩
        rw [Runs, List.cons_append, acceptLiteral_cons, (literalValue?_eq _).1 v hv]
      · cases hr
      · next hnone =>
        cases hr
        refine ⟨by simp, fun more => ?_⟩
        rw [Runs, List.cons_append, acceptLiteral_cons, (literalValue?_eq _).2 hnone]

end Tokens

section Parameters

theorem extends_parseMoreParameters {room larger : Nat} (h : room ≤ larger) :
    Extends (parseMoreParameters room) (parseMoreParameters larger) := by
  induction room generalizing larger with
  | zero => exact (Finishes.throw _).extends
  | succ room ih =>
      cases larger with
      | zero => cases h
      | succ larger =>
          refine (extends_accept ",").bind fun found => .ite ?_ (.pure _)
          refine (finishes_expectName .parameter).extends.bind fun name => ?_
          exact (ih (Nat.le_of_succ_le_succ h)).bind fun _ => .pure _

theorem finishes_parseParameters {room larger : Nat} (h : room ≤ larger) :
    Finishes (parseParameters room) (parseParameters larger) := by
  have hclose (names : List String) :
      Finishes (do expect ")"; return names) (do expect ")"; return names) :=
    (finishes_expect ")").done _
  refine (finishes_expect "(").extends.finish fun _ => extends_acceptName.finish fun name => ?_
  cases name with
  | none => exact (Extends.pure _).finish hclose
  | some name =>
      refine (extends_parseMoreParameters h).finish fun names => ?_
      exact (Extends.pure _).finish hclose

end Parameters

/-- With no less room, every rule of the parser does the same on longer input. -/
structure ExtendsAt (room larger : Nat) : Prop where
  statement : Finishes (parseStatement room) (parseStatement larger)
  block (closers : List String) : Extends (parseBlock room closers) (parseBlock larger closers)
  declaration : Finishes (parseDeclaration room) (parseDeclaration larger)
  definition : Finishes (parseDefinition room) (parseDefinition larger)
  expression (layer : Layer) : Extends (parseExpression room layer) (parseExpression larger layer)
  chain (layer : Layer) (left : Expr) :
    Extends (parseChain room layer left) (parseChain larger layer left)
  secondary : Extends (parseSecondary room) (parseSecondary larger)
  suffixes (receiver : Expr) : Extends (parseMembers room receiver) (parseMembers larger receiver)
  arguments : Extends (parseArguments room) (parseArguments larger)
  moreArguments : Extends (parseMoreArguments room) (parseMoreArguments larger)
  primary : Extends (parsePrimary room) (parsePrimary larger)
  members : Extends (parseObjectMembers room) (parseObjectMembers larger)

namespace ExtendsAt
variable {room larger : Nat} (h : ExtendsAt room larger)
include h

theorem declaration_succ :
    Finishes (parseDeclaration (room + 1)) (parseDeclaration (larger + 1)) := by
  refine (finishes_expect "LET").extends.finish fun _ => ?_
  refine (finishes_expectName .variable).extends.finish fun name => ?_
  have hend (value : Option Expr) : Finishes (do expect ";"; return Declaration.mk name value)
      (do expect ";"; return Declaration.mk name value) := (finishes_expect ";").done _
  refine (extends_accept "=").finish fun found => .ite ?_ ((Extends.pure _).finish hend)
  exact ((h.expression .logical).map some).finish hend

theorem definition_succ (hle : room ≤ larger) :
    Finishes (parseDefinition (room + 1)) (parseDefinition (larger + 1)) := by
  refine (finishes_expect "DEF").extends.finish fun _ => ?_
  refine (finishes_expectName .function).extends.finish fun name => ?_
  refine (finishes_parseParameters hle).extends.finish fun parameters => ?_
  refine (finishes_expect "DO").extends.finish fun _ => ?_
  exact (h.block ["END"]).finish fun body => (finishes_expect "END").done _

theorem block_succ (closers : List String) :
    Extends (parseBlock (room + 1) closers) (parseBlock (larger + 1) closers) := by
  intro ts body rest hr hrest
  cases ts with
  | nil => cases hr
  | cons token ts =>
      have hbody : Extends
          (if closers.contains token.literal then return [] else do
            let first ← parseStatement room
            return first :: (← parseBlock room closers))
          (if closers.contains token.literal then return [] else do
            let first ← parseStatement larger
            return first :: (← parseBlock larger closers)) := by
        refine .ite (.pure _) ?_
        exact h.statement.extends.bind fun first => (h.block closers).bind fun rest => .pure _
      exact hbody (token :: ts) body rest hr hrest

theorem operand (level : Option Layer) :
    Extends (parseOperand room level) (parseOperand larger level) := by
  cases level with
  | none => exact h.secondary
  | some layer => exact h.expression layer

theorem expression_succ (layer : Layer) :
    Extends (parseExpression (room + 1) layer) (parseExpression (larger + 1) layer) := by
  rw [parseExpression_succ, parseExpression_succ]
  exact (h.operand layer.tighter).bind fun first => h.chain layer first

theorem chain_succ (layer : Layer) (left : Expr) :
    Extends (parseChain (room + 1) layer left) (parseChain (larger + 1) layer left) := by
  rw [parseChain_succ, parseChain_succ]
  refine (extends_acceptOperator layer).bind fun operator => ?_
  cases operator with
  | none => exact .pure _
  | some operator => exact (h.operand layer.tighter).bind fun right => h.chain layer _

theorem secondary_succ : Extends (parseSecondary (room + 1)) (parseSecondary (larger + 1)) :=
  h.primary.bind fun receiver => h.suffixes receiver

theorem suffixes_succ (receiver : Expr) :
    Extends (parseMembers (room + 1) receiver) (parseMembers (larger + 1) receiver) := by
  refine (extends_accept ".").bind fun found => .ite ?_ (.pure _)
  refine (finishes_expectName .property).extends.bind fun name => ?_
  refine (extends_looksAt "(").bind fun found => .ite ?_ (h.suffixes _)
  exact h.arguments.bind fun arguments => h.suffixes _

theorem arguments_succ : Extends (parseArguments (room + 1)) (parseArguments (larger + 1)) := by
  refine (finishes_expect "(").extends.bind fun _ => ?_
  refine (extends_accept ")").bind fun found => .ite (.pure _) ?_
  refine (h.expression .logical).bind fun first => h.moreArguments.bind fun more => ?_
  exact ((finishes_expect ")").done _).extends

theorem moreArguments_succ :
    Extends (parseMoreArguments (room + 1)) (parseMoreArguments (larger + 1)) := by
  refine (extends_accept ",").bind fun found => .ite ?_ (.pure _)
  exact (h.expression .logical).bind fun first => h.moreArguments.bind fun more => .pure _

theorem primary_succ : Extends (parsePrimary (room + 1)) (parsePrimary (larger + 1)) := by
  refine extends_acceptLiteral.bind fun value => ?_
  cases value with
  | some value => exact .pure _
  | none =>
      refine (extends_accept "(").bind fun found => .ite ?_ ?_
      · exact (h.expression .logical).bind fun inner => ((finishes_expect ")").done _).extends
      refine (extends_accept "OBJECT").bind fun found => .ite ?_ ?_
      · refine extends_acceptObjectName.bind fun name => ?_
        refine (finishes_expect "DO").extends.bind fun _ => h.members.bind fun members => ?_
        exact ((finishes_expect "END").done _).extends
      · refine extends_acceptName.bind fun name => ?_
        cases name with
        | none => exact .fail _
        | some name =>
            refine (extends_looksAt "(").bind fun found => .ite ?_ (.pure _)
            exact h.arguments.bind fun arguments => .pure _

theorem members_succ : Extends (parseObjectMembers (room + 1)) (parseObjectMembers (larger + 1)) := by
  refine (extends_looksAt "END").bind fun atEnd => .ite (.pure _) ?_
  refine (extends_looksAt "LET").bind fun atField => .ite ?_ ?_
  · exact h.declaration.extends.bind fun d => h.members.bind fun members => .pure _
  refine (extends_looksAt "DEF").bind fun atMethod => .ite ?_ (.fail _)
  exact h.definition.extends.bind fun d => h.members.bind fun members => .pure _

/-- A branch behind its condition. -/
theorem branch (condition : Expr) :
    Finishes
      (do
        expect "DO"
        let thenBody ← parseBlock room ["ELSE", "END"]
        let elseBody ← if ← accept "ELSE" then parseBlock room ["END"] else pure []
        expect "END"
        return Stmt.branch condition thenBody elseBody)
      (do
        expect "DO"
        let thenBody ← parseBlock larger ["ELSE", "END"]
        let elseBody ← if ← accept "ELSE" then parseBlock larger ["END"] else pure []
        expect "END"
        return Stmt.branch condition thenBody elseBody) := by
  refine (finishes_expect "DO").extends.finish fun _ => ?_
  refine (h.block ["ELSE", "END"]).finish fun thenBody => ?_
  have hend (elseBody : List Stmt) :
      Finishes (do expect "END"; return Stmt.branch condition thenBody elseBody)
        (do expect "END"; return Stmt.branch condition thenBody elseBody) :=
    (finishes_expect "END").done _
  refine (extends_accept "ELSE").finish fun found => .ite ?_ ((Extends.pure _).finish hend)
  exact (h.block ["END"]).finish hend

/-- A RETURN behind its value. -/
theorem ret (value : Option Expr) :
    Finishes
      (do
        if ← accept "IF" then
          let condition ← parseExpression room .logical
          expect ";"
          return Stmt.branch condition [.ret value] []
        else
          expect ";"
          return Stmt.ret value)
      (do
        if ← accept "IF" then
          let condition ← parseExpression larger .logical
          expect ";"
          return Stmt.branch condition [.ret value] []
        else
          expect ";"
          return Stmt.ret value) := by
  refine (extends_accept "IF").finish fun found => .ite ?_ ((finishes_expect ";").done _)
  exact (h.expression .logical).finish fun condition => (finishes_expect ";").done _

/-- A statement behind the expression at its start. -/
theorem assignment (expression : Expr) :
    Finishes
      (do
        if ← looksAt "=" then
          unless expression.isTarget do
            fail .target
          advance
          let value ← parseExpression room .logical
          expect ";"
          return Stmt.assign expression value
        else
          expect ";"
          return Stmt.perform expression)
      (do
        if ← looksAt "=" then
          unless expression.isTarget do
            fail .target
          advance
          let value ← parseExpression larger .logical
          expect ";"
          return Stmt.assign expression value
        else
          expect ";"
          return Stmt.perform expression) := by
  refine (extends_looksAt "=").finish fun found => .ite ?_ ((finishes_expect ";").done _)
  have hvalue : Finishes
      (do
        advance
        let value ← parseExpression room .logical
        expect ";"
        return Stmt.assign expression value)
      (do
        advance
        let value ← parseExpression larger .logical
        expect ";"
        return Stmt.assign expression value) := by
    refine extends_advance.finish fun _ => (h.expression .logical).finish fun value => ?_
    exact (finishes_expect ";").done _
  exact .ite hvalue ((Extends.fail _).finish fun _ => hvalue)

theorem statement_succ : Finishes (parseStatement (room + 1)) (parseStatement (larger + 1)) := by
  refine (extends_looksAt "LET").finish fun atLet => .ite (h.declaration.done _) ?_
  refine (extends_looksAt "DEF").finish fun atDef => .ite (h.definition.done _) ?_
  refine (extends_accept "IF").finish fun atIf => .ite ?_ ?_
  · exact (h.expression .logical).finish fun condition => h.branch condition
  refine (extends_accept "FOR").finish fun atFor => .ite ?_ ?_
  · refine (finishes_expectName .loopVariable).extends.finish fun name => ?_
    refine (finishes_expect "IN").extends.finish fun _ => ?_
    refine (h.expression .logical).finish fun iterable => ?_
    refine (finishes_expect "DO").extends.finish fun _ => (h.block ["END"]).finish fun body => ?_
    exact (finishes_expect "END").done _
  refine (extends_accept "RETURN").finish fun atReturn => .ite ?_ ?_
  · refine (extends_looksAt ";").finish fun atEnd => (extends_looksAt "IF").finish fun atIf => ?_
    refine (Extends.pure _).finish fun bare => .ite ?_ ?_
    · exact (Extends.pure _).finish fun value => h.ret value
    · exact ((h.expression .logical).map some).finish fun value => h.ret value
  · exact (h.expression .logical).finish fun expression => h.assignment expression

end ExtendsAt

/-- Every rule of the parser does the same on longer input. -/
theorem extendsAt {room larger : Nat} (hle : room ≤ larger) : ExtendsAt room larger := by
  induction room generalizing larger with
  | zero =>
      have hthrow {α : Type} {q : Parse α} : Finishes (throw .tooDeep) q := .throw _
      exact {
        statement := hthrow
        block := fun _ => hthrow.extends
        declaration := hthrow
        definition := hthrow
        expression := fun _ => hthrow.extends
        chain := fun _ _ => hthrow.extends
        secondary := hthrow.extends
        suffixes := fun _ => hthrow.extends
        arguments := hthrow.extends
        moreArguments := hthrow.extends
        primary := hthrow.extends
        members := hthrow.extends }
  | succ room ih =>
      cases larger with
      | zero => cases hle
      | succ larger =>
          have h := ih (Nat.le_of_succ_le_succ hle)
          exact {
            statement := h.statement_succ
            block := h.block_succ
            declaration := h.declaration_succ
            definition := h.definition_succ (Nat.le_of_succ_le_succ hle)
            expression := h.expression_succ
            chain := h.chain_succ
            secondary := h.secondary_succ
            suffixes := h.suffixes_succ
            arguments := h.arguments_succ
            moreArguments := h.moreArguments_succ
            primary := h.primary_succ
            members := h.members_succ }

section Source
variable {room : Nat} {token : Token} {ts us rest : List Token} {statement : Stmt}
  {body more : List Stmt}

theorem parseSource_cons : parseSource (room + 1) (token :: ts) = (do
    let statement ← parseStatement room
    return statement :: (← parseSource room)) (token :: ts) :=
  rfl

/-- A program with a token in it has a statement first. -/
theorem runs_parseSource_split (h : Runs (parseSource (room + 1)) (token :: ts) body rest) :
    ∃ first mid tail, body = first :: tail ∧ Runs (parseStatement room) (token :: ts) first mid ∧
      Runs (parseSource room) mid tail rest := by
  rw [Runs, parseSource_cons] at h
  obtain ⟨first, mid, hfirst, htail⟩ := Runs.split h
  obtain ⟨tail, mid', htail, hend⟩ := htail.split
  cases hend
  exact ⟨first, mid, tail, rfl, hfirst, htail⟩

theorem runs_parseSource_cons (h : Runs (parseStatement room) (token :: ts) statement us)
    (h' : Runs (parseSource room) us body rest) :
    Runs (parseSource (room + 1)) (token :: ts) (statement :: body) rest := by
  rw [Runs, parseSource_cons]
  exact h.bind (h'.bind .pure)

theorem runs_parseSource_mono (h : Runs (parseSource room) ts body []) {larger : Nat}
    (hle : room ≤ larger) : Runs (parseSource larger) ts body [] := by
  induction room generalizing larger ts body with
  | zero => cases h
  | succ room ih =>
      cases larger with
      | zero => cases hle
      | succ larger =>
          have hle := Nat.le_of_succ_le_succ hle
          cases ts with
          | nil =>
              cases h
              rfl
          | cons token ts =>
              obtain ⟨first, mid, tail, rfl, hfirst, htail⟩ := runs_parseSource_split h
              obtain ⟨-, hmore⟩ := (extendsAt hle).statement _ _ _ hfirst
              have hfirst := hmore []
              rw [List.append_nil, List.append_nil] at hfirst
              exact runs_parseSource_cons hfirst (ih htail hle)

/-- Two programs in a row are parsed to the statements of both. What the first leaves of the room has to
be enough for the second: it takes one for each of its statements, and has a token for each. -/
theorem runs_parseSource_append {second : Nat} (h : Runs (parseSource room) ts body [])
    (h' : Runs (parseSource second) us more []) {larger : Nat} (hle : room ≤ larger)
    (hle' : second + ts.length ≤ larger) :
    Runs (parseSource larger) (ts ++ us) (body ++ more) [] := by
  induction room generalizing larger ts body with
  | zero => cases h
  | succ room ih =>
      cases ts with
      | nil =>
          cases h
          exact runs_parseSource_mono h' hle'
      | cons token ts =>
          obtain ⟨first, mid, tail, rfl, hfirst, htail⟩ := runs_parseSource_split h
          cases larger with
          | zero => cases hle
          | succ larger =>
              have hle := Nat.le_of_succ_le_succ hle
              obtain ⟨hlt, hmore⟩ := (extendsAt hle).statement _ _ _ hfirst
              -- The statement costs one of the room, and it has taken a token.
              exact runs_parseSource_cons (hmore us) (ih htail hle (by omega))

end Source

/-- A program is a list of statements that uses up all tokens. -/
theorem parse_source_iff {ts : List Token} {tree : Node} :
    parse .source ts = .ok tree ↔
      ∃ body, tree = .source body ∧ Runs (parseSource (roomFor ts)) ts body [] := by
  rw [parse_eq_ok_iff]
  constructor
  · intro h
    have hbind : Runs (parseSource (roomFor ts) >>= fun body => pure (Node.source body)) ts tree [] := by
      rw [← map_eq_pure_bind]
      exact h
    obtain ⟨body, rest, hbody, hend⟩ := hbind.split
    cases hend
    exact ⟨body, rfl, hbody⟩
  · rintro ⟨body, rfl, hbody⟩
    exact hbody.map

/-- The tokens of two programs in a row are parsed to the statements of both. -/
theorem parse_source_append {ts us : List Token} {body more : List Stmt}
    (h : parse .source ts = .ok (.source body)) (h' : parse .source us = .ok (.source more)) :
    parse .source (ts ++ us) = .ok (.source (body ++ more)) := by
  obtain ⟨_, hbody, hr⟩ := parse_source_iff.mp h
  obtain ⟨_, hmore, hr'⟩ := parse_source_iff.mp h'
  cases hbody
  cases hmore
  have hroom : (ts ++ us).length = ts.length + us.length := List.length_append
  refine parse_source_iff.mpr ⟨_, rfl, runs_parseSource_append hr hr' ?_ ?_⟩ <;>
    · unfold roomFor
      omega

end ProtoScript.Grammar
