import ProtoScript.Proofs.Tree.Grammar

/-!
# What the parser builds is derivable

A rule of the parser takes tokens off the front of the input. Those tokens spell the tree it returns,
whatever follows them. The look ahead with which a rule chooses among its cases plays no part here.
-/

namespace ProtoScript.Grammar
open ProtoScript.Parser

/-- The classes of tokens. -/
def kinds : List Token.Kind :=
  [.identifier, .integer, .decimal, .character, .string, .operator]

/-- A token whose text no token of another class can have. -/
def Terminal (token : Token) : Prop :=
  ∀ kind ∈ kinds, kind.starts token.literal.toList = true → kind = token.kind

instance (token : Token) : Decidable (Terminal token) :=
  inferInstanceAs (Decidable (∀ kind ∈ kinds, _ → _))

theorem Terminal.eq {token other : Token} (h : Terminal token) (ho : other.Shaped)
    (hl : other.literal = token.literal) : other = token := by
  have hk : other.kind ∈ kinds := by cases other.kind <;> simp [kinds]
  have := h other.kind hk (hl ▸ ho)
  cases other
  cases token
  simp_all

variable {α β : Type}

/-- The tokens that `p` takes and its result are always related by `R`. -/
def Reads (p : Parse α) (R : List Token → α → Prop) : Prop :=
  ∀ ts a rest, (∀ token ∈ ts, token.Shaped) → p ts = .ok (a, rest) →
    ∃ us, ts = us ++ rest ∧ R us a

namespace Reads

theorem pure {a : α} {S : List Token → α → Prop} (h : S [] a) : Reads (Pure.pure a) S := by
  intro ts b rest _ hp
  cases hp
  exact ⟨[], rfl, h⟩

theorem bind {p : Parse α} {f : α → Parse β} {R : List Token → α → Prop}
    {S : List Token → β → Prop} (h : Reads p R)
    (h' : ∀ us a, R us a → Reads (f a) fun vs b => S (us ++ vs) b) : Reads (p >>= f) S := by
  intro ts b rest hts hp
  cases ha : p ts with
  | error stop =>
      have : (p >>= f) ts = .error stop := by simp [Bind.bind, StateT.bind, ha, Except.bind]
      rw [this] at hp
      cases hp
  | ok r =>
      obtain ⟨a, mid⟩ := r
      have hb : f a mid = .ok (b, rest) := by
        rw [← hp]
        simp [Bind.bind, StateT.bind, ha, Except.bind]
      obtain ⟨us, rfl, hR⟩ := h ts a mid hts ha
      obtain ⟨vs, rfl, hS⟩ := h' us a hR mid b rest (fun t ht => hts t (by simp [ht])) hb
      exact ⟨us ++ vs, by simp, hS⟩

theorem mono {p : Parse α} {R S : List Token → α → Prop} (h : Reads p R)
    (h' : ∀ us a, R us a → S us a) : Reads p S := by
  intro ts a rest hts hp
  obtain ⟨us, he, hR⟩ := h ts a rest hts hp
  exact ⟨us, he, h' us a hR⟩

theorem pure_bind {a : α} {f : α → Parse β} {S : List Token → β → Prop} (h : Reads (f a) S) :
    Reads (Pure.pure a >>= f) S :=
  h

theorem map_bind {γ : Type} {p : Parse α} {g : α → β} {f : β → Parse γ}
    {R : List Token → α → Prop} {S : List Token → γ → Prop} (h : Reads p R)
    (h' : ∀ us a, R us a → Reads (f (g a)) fun vs c => S (us ++ vs) c) :
    Reads (g <$> p >>= f) S := by
  rw [bind_map_left]
  exact h.bind h'

end Reads

theorem reads_throw {stop : Stop} {S : List Token → α → Prop} :
    Reads (throw stop : Parse α) S := by
  intro ts a rest _ h
  cases h

theorem reads_fail {cause : Misfit} {S : List Token → α → Prop} :
    Reads (fail cause : Parse α) S := by
  intro ts a rest _ h
  cases h

theorem reads_get : Reads (get : Parse (List Token)) fun us _ => us = [] := by
  intro ts a rest _ h
  cases h
  exact ⟨[], rfl, rfl⟩

theorem reads_looksAt (text : String) : Reads (looksAt text) fun us _ => us = [] := by
  intro ts a rest _ h
  cases h
  exact ⟨[], rfl, rfl⟩

theorem accept_apply (text : String) (ts : List Token) :
    accept text ts = .ok (if ts.head?.any (·.literal = text) then (true, ts.tail) else (false, ts)) := by
  have h : accept text ts =
      (do if ts.head?.any (·.literal = text) then advance
          return ts.head?.any (·.literal = text) : Parse Bool) ts := rfl
  rw [h]
  cases ts.head?.any (·.literal = text) <;> rfl

theorem reads_accept (token : Token) (ht : Terminal token) :
    Reads (accept token.literal) fun us found => us = if found then [token] else [] := by
  intro ts found rest hts h
  rw [accept_apply] at h
  split at h
  · next hhead =>
    cases h
    cases ts with
    | nil => simp at hhead
    | cons first rest =>
        have hf : first = token := ht.eq (hts first (by simp)) (by simpa using hhead)
        exact ⟨[token], by simp [hf], rfl⟩
  · cases h
    exact ⟨[], rfl, rfl⟩

theorem reads_acceptName : Reads acceptName fun us name => us = objectName name := by
  intro ts name rest _ h
  cases ts with
  | nil =>
      cases h
      exact ⟨[], rfl, rfl⟩
  | cons first rest' =>
      obtain ⟨kind, literal⟩ := first
      cases kind with
      | identifier =>
          cases h
          exact ⟨[word literal], rfl, rfl⟩
      | _ =>
          cases h
          exact ⟨[], rfl, rfl⟩

/-- A token that is looked at and then taken is accepted. -/
theorem look_advance_eq (text : String) (p q : Parse β) :
    (do if ← looksAt text then advance; p else q) = (do if ← accept text then p else q) := by
  funext ts
  have hl : (do if ← looksAt text then advance; p else q : Parse β) ts =
      (if ts.head?.any (·.literal = text) then do advance; p else q : Parse β) ts := rfl
  rw [hl]
  simp only [Bind.bind, StateT.bind, accept_apply, Except.bind]
  cases ts.head?.any (·.literal = text) <;> rfl

namespace Reads
variable {S : List Token → β → Prop}

theorem look {text : String} {f : Bool → Parse β} (h : ∀ found, Reads (f found) S) :
    Reads (looksAt text >>= f) S := by
  refine (reads_looksAt text).bind fun us found hus => ?_
  subst hus
  exact h found

theorem accept (token : Token) {f : Bool → Parse β} (ht : Terminal token)
    (h : Reads (f true) fun vs b => S (token :: vs) b) (h' : Reads (f false) S) :
    Reads (Parser.accept token.literal >>= f) S := by
  refine (reads_accept token ht).bind fun us found hus => ?_
  subst hus
  cases found with
  | true => exact h
  | false => exact h'

theorem lookAdvance (token : Token) {p q : Parse β} (ht : Terminal token)
    (h : Reads p fun vs b => S (token :: vs) b) (h' : Reads q S) :
    Reads (do if ← looksAt token.literal then advance; p else q) S := by
  rw [look_advance_eq]
  exact .accept token ht h h'

theorem expect (token : Token) {f : Unit → Parse β} (ht : Terminal token)
    (h : Reads (f ()) fun vs b => S (token :: vs) b) :
    Reads (Parser.expect token.literal >>= f) S := by
  refine Reads.bind (R := fun us _ => us = [token]) ?_ fun us _ hus => hus ▸ h
  exact .accept token ht (.pure rfl) reads_fail

theorem name {role : NameRole} {f : String → Parse β}
    (h : ∀ name, Reads (f name) fun vs b => S (word name :: vs) b) :
    Reads (expectName role >>= f) S := by
  refine Reads.bind (R := fun us name => us = [word name]) ?_ fun us name hus => hus ▸ h name
  refine reads_acceptName.bind fun us name hus => ?_
  subst hus
  cases name with
  | some name => exact .pure rfl
  | none => exact reads_fail

end Reads

theorem reads_acceptObjectName : Reads acceptObjectName fun us name => us = objectName name := by
  refine .look fun found => ?_
  split
  · exact .pure rfl
  · exact reads_acceptName

theorem terminal_operatorToken {layer : Layer} {symbol : String} (h : symbol ∈ layer.symbols) :
    Terminal (operatorToken layer symbol) := by
  revert symbol
  cases layer <;> decide

theorem operatorToken_literal (layer : Layer) (symbol : String) :
    (operatorToken layer symbol).literal = symbol := by
  cases layer <;> rfl

theorem acceptOperator_cons (layer : Layer) (first : Token) (rest : List Token) :
    acceptOperator layer (first :: rest) =
      .ok (if first.literal ∈ layer.symbols then (some (Operator.ofSymbol first.literal), rest)
        else (none, first :: rest)) := by
  have h : acceptOperator layer (first :: rest) =
      (if layer.symbols.contains first.literal then do
          advance
          return some (Operator.ofSymbol first.literal)
        else return none : Parse (Option Operator)) (first :: rest) := rfl
  rw [h]
  by_cases hs : first.literal ∈ layer.symbols <;> simp [hs] <;> rfl

theorem reads_acceptOperator (layer : Layer) :
    Reads (acceptOperator layer) fun us operator =>
      (operator = none ∧ us = []) ∨
        ∃ symbol ∈ layer.symbols, operator = some (Operator.ofSymbol symbol) ∧
          us = [operatorToken layer symbol] := by
  intro ts operator rest hts h
  cases ts with
  | nil =>
      cases h
      exact ⟨[], rfl, .inl ⟨rfl, rfl⟩⟩
  | cons first rest' =>
      rw [acceptOperator_cons] at h
      split at h
      · next hs =>
        cases h
        have hf : first = operatorToken layer first.literal :=
          (terminal_operatorToken hs).eq (hts first (by simp))
            (operatorToken_literal layer first.literal).symm
        exact ⟨[first], rfl, .inr ⟨first.literal, hs, rfl, by rw [← hf]⟩⟩
      · cases h
        exact ⟨[], rfl, .inl ⟨rfl, rfl⟩⟩

theorem acceptLiteral_apply (first : Token) (rest : List Token) :
    acceptLiteral (first :: rest) =
      (match literalValue? first (first :: rest) with
        | some value => do
            let value ← value
            advance
            return some value
        | none => return none : Parse (Option Literal)) (first :: rest) :=
  rfl

theorem acceptLiteral_cons (first : Token) (rest : List Token) :
    acceptLiteral (first :: rest) =
      match literalValue? first (first :: rest) with
      | some (.ok value) => .ok (some value, rest)
      | some (.error stop) => .error stop
      | none => .ok (none, first :: rest) := by
  rw [acceptLiteral_apply]
  rcases literalValue? first (first :: rest) with _ | (stop | value) <;> rfl

theorem numberValue_eq_ok_iff {token : Token} {rest : List Token} {value : Literal} :
    numberValue token rest = .ok value ↔ Literal.ofNumber token = .ok value := by
  unfold numberValue
  split <;> simp_all

/-- What the parser takes for a literal denotes its value. -/
theorem denotes_of_literalValue? {token : Token} {rest : List Token} {value : Literal}
    (ht : token.Shaped) (h : literalValue? token rest = some (.ok value)) :
    Denotes token value := by
  unfold literalValue? at h
  split at h
  · next hl =>
    cases h
    obtain rfl : token = word "NIL" := Terminal.eq (by decide) ht hl
    exact .nil
  · split at h
    · next hl =>
      cases h
      obtain rfl : token = word "TRUE" := Terminal.eq (by decide) ht hl
      exact .true
    · split at h
      · next hl =>
        cases h
        obtain rfl : token = word "FALSE" := Terminal.eq (by decide) ht hl
        exact .false
      · obtain ⟨kind, text⟩ := token
        cases kind with
        | integer | decimal => exact .number (by simp) (numberValue_eq_ok_iff.mp (Option.some.inj h))
        | character =>
            cases h
            exact .character text
        | string =>
            cases h
            exact .string text
        | identifier | operator => cases h

theorem reads_acceptLiteral :
    Reads acceptLiteral fun us value =>
      (value = none ∧ us = []) ∨ ∃ token v, value = some v ∧ us = [token] ∧ Denotes token v := by
  intro ts value rest hts h
  cases ts with
  | nil =>
      cases h
      exact ⟨[], rfl, .inl ⟨rfl, rfl⟩⟩
  | cons first rest' =>
      rw [acceptLiteral_cons] at h
      split at h
      · next v hv =>
        cases h
        have hd := denotes_of_literalValue? (hts first (by simp)) hv
        exact ⟨[first], rfl, .inr ⟨first, v, rfl, rfl, hd⟩⟩
      · cases h
      · cases h
        exact ⟨[], rfl, .inl ⟨rfl, rfl⟩⟩

theorem reads_parseMoreParameters (room : Nat) :
    Reads (parseMoreParameters room) fun us names => us = moreParameters names := by
  induction room with
  | zero => exact reads_throw
  | succ room ih =>
      refine .accept (mark ",") (by decide) ?_ (.pure rfl)
      refine .name fun name => ih.bind fun us names hus => .pure ?_
      simp [hus, moreParameters]

theorem reads_parseParameters (room : Nat) :
    Reads (parseParameters room) fun us names => us = parameters names := by
  refine .expect (mark "(") (by decide) (reads_acceptName.bind fun us name hus => ?_)
  subst hus
  cases name with
  | some name =>
      refine (reads_parseMoreParameters room).bind fun us names hus => ?_
      refine .pure_bind (.expect (mark ")") (by decide) (.pure ?_))
      simp [hus, parameters, objectName]
  | none =>
      refine .pure_bind (.expect (mark ")") (by decide) (.pure ?_))
      simp [parameters, objectName]

/-- An operand of the next looser layer. -/
def parseOperand (room : Nat) : Option Layer → Parse Expr
  | some layer => parseExpression room layer
  | none => parseSecondary room

theorem parseExpression_succ (room : Nat) (layer : Layer) :
    parseExpression (room + 1) layer =
      parseOperand room layer.tighter >>= parseChain room layer := by
  cases layer <;> rfl

theorem parseChain_succ (room : Nat) (layer : Layer) (left : Expr) :
    parseChain (room + 1) layer left = (do
      match ← acceptOperator layer with
      | none => return left
      | some operator =>
          let right ← parseOperand room layer.tighter
          parseChain room layer (.binary operator left right)) := by
  cases layer <;> rfl

/-- With `room` to spare every rule of the parser keeps to the grammar. -/
structure SoundAt (room : Nat) : Prop where
  statement : Reads (parseStatement room) (Derives .statement)
  block (closers : List String) : Reads (parseBlock room closers) (Derives .statements)
  declaration : Reads (parseDeclaration room) (Derives .declaration)
  definition : Reads (parseDefinition room) (Derives .definition)
  expression (layer : Layer) :
    Reads (parseExpression room layer) (Derives (.operand (some layer)))
  chain (layer : Layer) (left : Expr) :
    Reads (parseChain room layer left) fun us e =>
      ∃ items, Derives (.operands layer) us items ∧ e = applyOperands left items
  secondary : Reads (parseSecondary room) (Derives (.operand none))
  suffixes (receiver : Expr) :
    Reads (parseMembers room receiver) fun us e =>
      ∃ items, Derives .suffixes us items ∧ e = applySuffixes receiver items
  arguments : Reads (parseArguments room) (Derives .arguments)
  moreArguments : Reads (parseMoreArguments room) (Derives .moreArguments)
  primary : Reads (parsePrimary room) (Derives .primary)
  members :
    Reads (parseObjectMembers room) fun us split =>
      ∃ items, Derives .members us items ∧ split = (fieldsOf items, methodsOf items)

theorem soundAt_zero : SoundAt 0 := by
  constructor <;> intros <;> exact reads_throw

namespace SoundAt
variable {room : Nat} (h : SoundAt room)
include h

theorem declaration_succ : Reads (parseDeclaration (room + 1)) (Derives .declaration) := by
  refine .expect (word "LET") (by decide) (.name fun name => ?_)
  refine .accept (mark "=") (by decide) ?_ ?_
  · refine (h.expression .logical).map_bind fun us value hv => ?_
    exact .expect (mark ";") (by decide) (.pure (.letValue name hv))
  · exact .pure_bind (.expect (mark ";") (by decide) (.pure (.letBare name)))

theorem definition_succ : Reads (parseDefinition (room + 1)) (Derives .definition) := by
  refine .expect (word "DEF") (by decide) (.name fun name => ?_)
  refine (reads_parseParameters room).bind fun us names hus => ?_
  subst hus
  refine .expect (word "DO") (by decide) ((h.block ["END"]).bind fun us body hbody => ?_)
  refine .expect (word "END") (by decide) (.pure ?_)
  exact .definition name names hbody

theorem block_succ (closers : List String) :
    Reads (parseBlock (room + 1) closers) (Derives .statements) := by
  refine reads_get.bind fun us ts hus => ?_
  subst hus
  split
  · exact reads_fail
  · split
    · exact .pure .noStatement
    · refine h.statement.bind fun us first hf => (h.block closers).bind fun vs rest hr => ?_
      exact .pure (by simpa using hf.statements hr)

theorem operand (level : Option Layer) : Reads (parseOperand room level) (Derives (.operand level)) := by
  cases level with
  | none => exact h.secondary
  | some layer => exact h.expression layer

theorem expression_succ (layer : Layer) :
    Reads (parseExpression (room + 1) layer) (Derives (.operand (some layer))) := by
  rw [parseExpression_succ]
  refine (h.operand layer.tighter).bind fun us first hf => (h.chain layer first).mono ?_
  rintro vs e ⟨items, hi, rfl⟩
  exact hf.chain hi

theorem chain_succ (layer : Layer) (left : Expr) :
    Reads (parseChain (room + 1) layer left) fun us e =>
      ∃ items, Derives (.operands layer) us items ∧ e = applyOperands left items := by
  rw [parseChain_succ]
  refine (reads_acceptOperator layer).bind fun us operator hus => ?_
  rcases hus with ⟨rfl, rfl⟩ | ⟨symbol, hs, rfl, rfl⟩
  · exact .pure ⟨[], .noOperand layer, rfl⟩
  · refine (h.operand layer.tighter).bind fun us right hr => (h.chain layer _).mono ?_
    rintro vs e ⟨items, hi, rfl⟩
    exact ⟨_, by simpa using hr.operands symbol hs hi, rfl⟩

theorem secondary_succ : Reads (parseSecondary (room + 1)) (Derives (.operand none)) := by
  refine h.primary.bind fun us receiver hp => (h.suffixes receiver).mono ?_
  rintro vs e ⟨items, hi, rfl⟩
  exact hp.secondary hi

theorem suffixes_succ (receiver : Expr) :
    Reads (parseMembers (room + 1) receiver) fun us e =>
      ∃ items, Derives .suffixes us items ∧ e = applySuffixes receiver items := by
  refine .accept (mark ".") (by decide) (.name fun name => .look fun found => ?_)
    (.pure ⟨[], .noSuffix, rfl⟩)
  split
  · refine h.arguments.bind fun us arguments ha => (h.suffixes _).mono ?_
    rintro vs e ⟨items, hi, rfl⟩
    exact ⟨_, .method name ha hi, rfl⟩
  · refine (h.suffixes _).mono ?_
    rintro vs e ⟨items, hi, rfl⟩
    exact ⟨_, .property name hi, rfl⟩

theorem arguments_succ : Reads (parseArguments (room + 1)) (Derives .arguments) := by
  refine .expect (mark "(") (by decide) (.accept (mark ")") (by decide) (.pure .noArgument) ?_)
  refine (h.expression .logical).bind fun us first hf => h.moreArguments.bind fun vs more hm => ?_
  exact .expect (mark ")") (by decide) (.pure (by simpa using hf.arguments hm))

theorem moreArguments_succ :
    Reads (parseMoreArguments (room + 1)) (Derives .moreArguments) := by
  refine .accept (mark ",") (by decide) ?_ (.pure .noMoreArgument)
  refine (h.expression .logical).bind fun us first hf => h.moreArguments.bind fun vs more hm => ?_
  exact .pure (by simpa using hf.moreArguments hm)

theorem primary_succ : Reads (parsePrimary (room + 1)) (Derives .primary) := by
  refine reads_acceptLiteral.bind fun us value hus => ?_
  rcases hus with ⟨rfl, rfl⟩ | ⟨token, v, rfl, rfl, hd⟩
  · refine .accept (mark "(") (by decide) ?_ (.accept (word "OBJECT") (by decide) ?_ ?_)
    · refine (h.expression .logical).bind fun us inner hi => ?_
      exact .expect (mark ")") (by decide) (.pure (.group hi))
    · refine reads_acceptObjectName.bind fun us name hus => .expect (word "DO") (by decide) ?_
      subst hus
      refine h.members.bind fun us split hm => ?_
      obtain ⟨items, hi, rfl⟩ := hm
      exact .expect (word "END") (by decide) (.pure (.object name hi))
    · refine reads_acceptName.bind fun us name hus => ?_
      subst hus
      cases name with
      | none => exact reads_fail
      | some name =>
          refine .look fun found => ?_
          split
          · exact h.arguments.bind fun us arguments ha => .pure (by simpa [objectName] using ha.call name)
          · exact .pure (.name name)
  · exact .pure (.literal hd)

theorem members_succ :
    Reads (parseObjectMembers (room + 1)) fun us split =>
      ∃ items, Derives .members us items ∧ split = (fieldsOf items, methodsOf items) := by
  refine .look fun atEnd => ?_
  split
  · exact .pure ⟨[], .noMember, rfl⟩
  · refine .look fun atField => ?_
    split
    · refine h.declaration.bind fun us d hd => h.members.bind fun vs split hm => .pure ?_
      obtain ⟨items, hi, rfl⟩ := hm
      exact ⟨.inl d :: items, by simpa using hd.field hi, rfl⟩
    · refine .look fun atMethod => ?_
      split
      · refine h.definition.bind fun us d hd => h.members.bind fun vs split hm => .pure ?_
        obtain ⟨items, hi, rfl⟩ := hm
        exact ⟨.inr d :: items, by simpa using hd.ownMethod hi, rfl⟩
      · exact reads_fail

/-- A branch behind its condition. -/
theorem branch {cs : List Token} {condition : Expr} (hc : Derives .expression cs condition) :
    Reads (do
      expect "DO"
      let thenBody ← parseBlock room ["ELSE", "END"]
      let elseBody ← if ← accept "ELSE" then parseBlock room ["END"] else pure []
      expect "END"
      return .branch condition thenBody elseBody) fun vs s =>
        Derives .statement (word "IF" :: (cs ++ vs)) s := by
  refine .expect (word "DO") (by decide) ((h.block ["ELSE", "END"]).bind fun ts thenBody ht => ?_)
  refine .accept (word "ELSE") (by decide) ?_ ?_
  · refine (h.block ["END"]).bind fun es elseBody he => ?_
    exact .expect (word "END") (by decide) (.pure (hc.branchElse ht he))
  · exact .pure_bind (.expect (word "END") (by decide) (.pure (hc.branch ht)))

/-- A RETURN behind its value. -/
theorem ret {us : List Token} {value : Option Expr} (hv : Derives .optional us value) :
    Reads (do
      if ← accept "IF" then
        let condition ← parseExpression room .logical
        expect ";"
        return .branch condition [.ret value] []
      else
        expect ";"
        return .ret value) fun vs s => Derives .statement (word "RETURN" :: (us ++ vs)) s := by
  refine .accept (word "IF") (by decide) ?_ ?_
  · refine (h.expression .logical).bind fun cs condition hc => ?_
    exact .expect (mark ";") (by decide) (.pure (hv.retIf hc))
  · exact .expect (mark ";") (by decide) (.pure hv.ret)

/-- A statement behind the expression at its start. -/
theorem assignment {ts : List Token} {expression : Expr}
    (he : Derives .expression ts expression) :
    Reads (do
      if ← looksAt "=" then
        unless expression.isTarget do
          fail .target
        advance
        let value ← parseExpression room .logical
        expect ";"
        return .assign expression value
      else
        expect ";"
        return .perform expression) fun vs s => Derives .statement (ts ++ vs) s := by
  cases ha : expression.isTarget with
  | true =>
      refine .lookAdvance (mark "=") (by decide) ?_ ?_
      · refine (h.expression .logical).bind fun vs value hv => ?_
        exact .expect (mark ";") (by decide) (.pure (he.assign ha hv))
      · exact .expect (mark ";") (by decide) (.pure he.perform)
  | false =>
      refine .look fun found => ?_
      split
      · exact reads_fail.bind (R := fun _ _ => False) fun _ _ => False.elim
      · exact .expect (mark ";") (by decide) (.pure he.perform)

theorem statement_succ : Reads (parseStatement (room + 1)) (Derives .statement) := by
  refine .look fun atLet => ?_
  split
  · exact h.declaration.bind fun us d hd => .pure (by simpa using hd.declare)
  refine .look fun atDef => ?_
  split
  · exact h.definition.bind fun us d hd => .pure (by simpa using hd.define)
  refine .accept (word "IF") (by decide) ?_ (.accept (word "FOR") (by decide) ?_
    (.accept (word "RETURN") (by decide) ?_ ?_))
  · exact (h.expression .logical).bind fun cs condition hc => h.branch hc
  · refine .name fun name => .expect (word "IN") (by decide) ?_
    refine (h.expression .logical).bind fun is iterable hi => .expect (word "DO") (by decide) ?_
    refine (h.block ["END"]).bind fun ts body hb => ?_
    exact .expect (word "END") (by decide) (.pure (hi.loop name hb))
  · refine .look fun atEnd => .look fun atIf => .pure_bind ?_
    split
    · exact .pure_bind (h.ret .noValue)
    · exact (h.expression .logical).map_bind fun us value hv => h.ret hv.value
  · exact (h.expression .logical).bind fun ts expression he => h.assignment he

end SoundAt

/-- Every rule of the parser keeps to the grammar. -/
theorem soundAt (room : Nat) : SoundAt room := by
  induction room with
  | zero => exact soundAt_zero
  | succ room ih =>
      exact {
        statement := ih.statement_succ
        block := ih.block_succ
        declaration := ih.declaration_succ
        definition := ih.definition_succ
        expression := ih.expression_succ
        chain := ih.chain_succ
        secondary := ih.secondary_succ
        suffixes := ih.suffixes_succ
        arguments := ih.arguments_succ
        moreArguments := ih.moreArguments_succ
        primary := ih.primary_succ
        members := ih.members_succ }

theorem reads_parseSource (room : Nat) : Reads (parseSource room) (Derives .statements) := by
  induction room with
  | zero => exact reads_throw
  | succ room ih =>
      refine reads_get.bind fun us ts hus => ?_
      subst hus
      split
      · exact .pure .noStatement
      · refine (soundAt room).statement.bind fun us first hf => ih.bind fun vs rest hr => ?_
        exact .pure (by simpa using hf.statements hr)

theorem reads_parseRule (room : Nat) (rule : Rule) : Reads (parseRule room rule) (Spells rule) := by
  have hmap {α : Type} {p : Parse α} {g : α → Node} {R : List Token → α → Prop}
      (hp : Reads p R) (h : ∀ us a, R us a → Spells rule us (g a)) :
      Reads (g <$> p) (Spells rule) := by
    rw [map_eq_pure_bind]
    exact hp.bind fun us a ha => .pure (by simpa using h us a ha)
  cases rule with
  | source => exact hmap (reads_parseSource room) fun _ _ h => h
  | statement => exact hmap (soundAt room).statement fun _ _ h => h
  | expression => exact hmap ((soundAt room).expression .logical) fun _ _ h => h

/-- A parse succeeds if its start rule uses up all tokens. -/
theorem parse_eq_ok_iff (rule : Rule) (ts : List Token) (tree : Node) :
    parse rule ts = .ok tree ↔ parseRule (roomFor ts) rule ts = .ok (tree, []) := by
  cases h : parseRule (roomFor ts) rule ts with
  | error stop =>
      have hw : (parseWhole (roomFor ts) rule).run ts = .error stop := by
        simp [parseWhole, StateT.run, Bind.bind, StateT.bind, h, Except.bind]
      simp only [parse, hw]
      cases stop <;> simp
  | ok r =>
      obtain ⟨node, rest⟩ := r
      cases rest with
      | nil =>
          have hw : (parseWhole (roomFor ts) rule).run ts = .ok (node, []) := by
            simp only [parseWhole, StateT.run, Bind.bind, StateT.bind, h, Except.bind]
            rfl
          simp [parse, hw]
      | cons token rest =>
          have hw : (parseWhole (roomFor ts) rule).run ts =
              .error (.misfit .notEnd (token :: rest)) := by
            simp only [parseWhole, StateT.run, Bind.bind, StateT.bind, h, Except.bind]
            rfl
          simp [parse, hw]

/-- Only what the grammar spells is parsed, and to that tree. -/
theorem spells_of_parse {rule : Rule} {ts : List Token} {tree : Node}
    (hts : ∀ token ∈ ts, token.Shaped) (h : parse rule ts = .ok tree) : Spells rule ts tree := by
  obtain ⟨us, he, hs⟩ :=
    reads_parseRule (roomFor ts) rule ts tree [] hts ((parse_eq_ok_iff rule ts tree).mp h)
  rw [he, List.append_nil]
  exact hs

end ProtoScript.Grammar
