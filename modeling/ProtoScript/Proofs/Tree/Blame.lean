import ProtoScript.Proofs.Tree.Complete
import ProtoScript.Proofs.Tree.Guidance
import ProtoScript.Proofs.Tree.Room

/-!
# A parse error blames the first token that cannot fit

Every rule of the parser is guided by the next token. So the tokens in front of a parse error can be
completed to an input that is accepted, and no input that goes on with the blamed token is.
-/

namespace ProtoScript.Grammar
open ProtoScript.Parser

/-- The first token is spelled like one of the texts. -/
def Meets (texts : List String) (ts : List Token) : Prop :=
  ∃ token rest, ts = token :: rest ∧ token.literal ∈ texts

theorem meets_cons {texts : List String} {token : Token} (h : token.literal ∈ texts)
    (rest : List Token) : Meets texts (token :: rest) :=
  ⟨token, rest, rfl, h⟩

theorem Meets.any_head? {text : String} {ts : List Token} (h : Meets [text] ts) :
    ts.head?.any (·.literal = text) = true := by
  obtain ⟨token, rest, rfl, ht⟩ := h
  simpa using ht

theorem operator_of_ends {layer : Layer} {ts : List Token} (h : Ends (after (some layer)) ts) :
    Verdict.operator layer ts.head? = .stay none := by
  cases ts with
  | nil => rfl
  | cons token rest =>
      have hn : token.literal ∉ layer.symbols := fun hs =>
        avoids_cons.mp (h _ (symbols_subset_after layer hs)) rfl
      exact if_neg hn

section Completions
variable {ahead : List Token → Prop}

theorem completes_parseMoreParameters : Completes Anything (Ends [","]) parseMoreParameters [] := by
  refine ⟨[], [], List.nil_subset _, fun ts hts => ⟨trivial, .shift ⟨0, fun room _ => ?_⟩⟩⟩
  exact Runs.skip (hts "," (by decide)) .pure

theorem completes_parseParameters : Completes Anything Anything parseParameters [] :=
  ⟨[mark "(", mark ")"], [], by decide, fun _ _ => ⟨trivial, 0, fun _ _ => rfl⟩⟩

theorem completes_parseBlock (closers : List String) :
    Completes Anything (Meets closers) (parseBlock · closers) [] := by
  refine ⟨[], [], List.nil_subset _, fun ts hts => ⟨trivial, .shift ⟨0, fun room _ => ?_⟩⟩⟩
  obtain ⟨token, rest, rfl, ht⟩ := hts
  have hclosed : Verdict.closing closers (token :: rest).head? = .stay true :=
    congrArg Verdict.stay (List.contains_iff_mem.mpr ht)
  simp only [parseBlock_succ]
  exact bind_of_ok (decideBy_stay hclosed)

theorem completes_parseChain (layer : Layer) (left : Expr) :
    Completes (Ends (after layer.tighter)) (Ends (after (some layer))) (parseChain · layer left) [] := by
  refine ⟨[], left, List.nil_subset _, fun ts hts => ⟨hts.mono (after_tighter layer), 1, ?_⟩⟩
  intro room hr
  exact (Parses.noOperand layer).2 room left ts hr hts

theorem completes_parseMembers (receiver : Expr) :
    Completes (Ends ["("]) (Ends (after none)) (parseMembers · receiver) [] := by
  refine ⟨[], receiver, List.nil_subset _, fun ts hts => ⟨hts.mono (by decide), 1, fun room hr => ?_⟩⟩
  exact Parses.noSuffix.2 room receiver ts hr hts

theorem completes_parseMoreArguments :
    Completes (Ends (after (some .logical))) (Ends ("," :: after (some .logical)))
      parseMoreArguments [] := by
  refine ⟨[], [], List.nil_subset _, fun ts hts => ⟨hts.mono (by decide), 1, fun room hr => ?_⟩⟩
  exact Parses.noMoreArgument.2 room ts hr hts

theorem completes_parseObjectMembers : Completes Anything (Meets ["END"]) parseObjectMembers [] := by
  refine ⟨[], ([], []), List.nil_subset _, fun ts hts => ⟨trivial, .shift ⟨0, fun room _ => ?_⟩⟩⟩
  obtain ⟨⟨kind, literal⟩, rest, rfl, ht⟩ := hts
  obtain rfl : literal = "END" := List.mem_singleton.mp ht
  exact Runs.seen ⟨kind, "END"⟩ .pure

/-- A name is an operand of every level. -/
theorem parses_name (level : Option Layer) : Parses (.operand level) [word "x"] (.name "x") := by
  have hshaped : (word "x").Shaped := rfl
  have hsecondary : Parses (.operand none) [word "x"] (.name "x") :=
    .secondary (.name (by decide) hshaped) .noSuffix
  have hlayer (layer : Layer) (h : Parses (.operand layer.tighter) [word "x"] (.name "x")) :
      Parses (.operand (some layer)) [word "x"] (.name "x") :=
    .chain h (.noOperand layer)
  have hadditive := hlayer .additive (hlayer .multiplicative hsecondary)
  rcases level with _ | _ | _ | _ | _
  · exact hsecondary
  · exact hlayer .logical (hlayer .comparison hadditive)
  · exact hlayer .comparison hadditive
  · exact hadditive
  · exact hlayer .multiplicative hsecondary

theorem completes_parseOperand (level : Option Layer) (hahead : ∀ ts, ahead (word "x" :: ts)) :
    Completes ahead (Ends (after level)) (parseOperand · level) [] := by
  refine ⟨[word "x"], .name "x", by decide, fun ts hts => ⟨hahead ts, 12 + depth level, ?_⟩⟩
  intro room hr
  exact (parses_name level).2 room ts hr hts

theorem completes_parseStatement : Completes Anything Anything parseStatement [] := by
  refine ⟨[word "RETURN", mark ";"], .ret none, by decide, fun ts _ => ⟨trivial, 31, ?_⟩⟩
  intro room hr
  exact (Parses.ret .noValue).2 room ts hr

theorem completes_parseSource : Completes Anything (· = []) parseSource [] := by
  refine ⟨[], [], List.nil_subset _, fun ts hts => ⟨trivial, 8, fun room hr => ?_⟩⟩
  subst hts
  exact Parses.noStatement.2 room hr

end Completions

section Parameters

theorem guided_parseMoreParameters (room : Nat) :
    Guided room Anything (Ends [","]) parseMoreParameters := by
  induction room with
  | zero => exact ⟨.zero rfl, completes_parseMoreParameters⟩
  | succ room ih =>
      refine ⟨.shift (.accept (.name fun name => ?_) ?_), completes_parseMoreParameters⟩
      · exact ih.bind fun names => .pure _ fun _ hts => hts
      · exact .pure _ fun ts hts => ⟨trivial, hts "," (by decide)⟩

theorem guided_parseParameters (room : Nat) : Guided room Anything Anything parseParameters := by
  have hclose (names : List String) {ahead : List Token → Prop} (hahead : ∀ ts, ahead (mark ")" :: ts)) :
      Guided room ahead Anything fun _ => (do expect ")"; return names) :=
    .last (mark ")") (by decide) hahead _
  refine ⟨.expect (.acceptName (fun name => ?_) ?_), completes_parseParameters⟩
  · refine (guided_parseMoreParameters room).bind fun names => ?_
    exact (Guided.pure _ fun _ hts => hts).bind fun names => hclose names (ends_cons (by decide))
  · exact (Guided.pure _ fun _ hts => hts).bind fun names => hclose names fun _ => ⟨trivial, rfl⟩

end Parameters

/-- Every rule is guided by the next token. The rules that take a token in any case stop nowhere without
one. -/
structure GuidedAt (room : Nat) : Prop where
  statement : Tracks room Nothing Anything parseStatement
  block (closers : List String) : Guided room Anything (Meets closers) (parseBlock · closers)
  declaration : Tracks room Nothing Anything parseDeclaration
  definition : Tracks room Nothing Anything parseDefinition
  expression (layer : Layer) : Tracks room Nothing (Ends (after (some layer))) (parseExpression · layer)
  chain (layer : Layer) (left : Expr) :
    Guided room (Ends (after layer.tighter)) (Ends (after (some layer))) (parseChain · layer left)
  secondary : Tracks room Nothing (Ends (after none)) parseSecondary
  suffixes (receiver : Expr) : Guided room (Ends ["("]) (Ends (after none)) (parseMembers · receiver)
  arguments : Tracks room Nothing Anything parseArguments
  moreArguments :
    Guided room (Ends (after (some .logical))) (Ends ("," :: after (some .logical))) parseMoreArguments
  primary : Tracks room Nothing (Ends ["("]) parsePrimary
  members : Guided room Anything (Meets ["END"]) parseObjectMembers

namespace GuidedAt
variable {room : Nat} {ahead : List Token → Prop} (h : GuidedAt room)
include h

theorem operand (level : Option Layer) (hahead : ∀ ts, ahead (word "x" :: ts)) :
    Guided room ahead (Ends (after level)) (parseOperand · level) := by
  refine ⟨?_, completes_parseOperand level hahead⟩
  cases level with
  | none => exact h.secondary.mono nofun
  | some layer => exact (h.expression layer).mono nofun

theorem logical (hahead : ∀ ts, ahead (word "x" :: ts)) :
    Guided room ahead (Ends (after (some .logical))) (parseExpression · .logical) :=
  h.operand (some .logical) hahead

theorem declaration_succ : Tracks (room + 1) Nothing Anything parseDeclaration := by
  refine .shift (.expect (.name fun name => ?_))
  have hend (value : Option Expr) {ahead : List Token → Prop} (hahead : ∀ ts, ahead (mark ";" :: ts)) :
      Guided room ahead Anything fun _ => (do expect ";"; return Declaration.mk name value) :=
    .last (mark ";") (by decide) hahead _
  refine .accept ?_ ?_
  · refine ((h.logical fun _ => trivial).map some).bind fun value => ?_
    exact hend value (ends_cons (by decide))
  · refine (Guided.pure _ fun _ hts => hts).bind fun value => ?_
    exact hend value fun _ => ⟨trivial, avoids_cons.mpr (by decide)⟩

theorem definition_succ : Tracks (room + 1) Nothing Anything parseDefinition := by
  refine .shift (.expect (.name fun name => (guided_parseParameters room).bind fun parameters => ?_))
  refine .expect (word "DO") (by decide) (fun _ => trivial) ((h.block ["END"]).bind fun body => ?_)
  exact .last (word "END") (by decide) (meets_cons (by decide)) _

theorem block_succ (closers : List String) :
    Guided (room + 1) Anything (Meets closers) (parseBlock · closers) := by
  refine ⟨.shift ?_, completes_parseBlock closers⟩
  simp only [parseBlock_succ]
  refine .step nofun nofun fun head closed _ => ?_
  cases closed with
  | true =>
      refine .pure _ fun ts hts => ⟨trivial, ?_⟩
      obtain ⟨token, rest, rfl, ht⟩ := hts
      exact congrArg Verdict.stay (List.contains_iff_mem.mpr ht)
  | false =>
      refine (h.statement.mono nofun).bind fun first => ?_
      exact (h.block closers).bind fun rest => .pure _ fun _ hts => hts

theorem expression_succ (layer : Layer) :
    Tracks (room + 1) Nothing (Ends (after (some layer))) (parseExpression · layer) := by
  refine .shift ?_
  simp only [parseExpression_succ]
  have hoperand : Tracks room Nothing (Ends (after layer.tighter)) (parseOperand · layer.tighter) := by
    cases layer.tighter with
    | none => exact h.secondary
    | some tighter => exact h.expression tighter
  exact hoperand.bind fun first => h.chain layer first

theorem chain_succ (layer : Layer) (left : Expr) :
    Guided (room + 1) (Ends (after layer.tighter)) (Ends (after (some layer)))
      (parseChain · layer left) := by
  refine ⟨.shift ?_, completes_parseChain layer left⟩
  simp only [parseChain_succ]
  refine .acceptOperator (fun operator => ?_) (.pure _ fun ts hts => ?_)
  · exact (h.operand layer.tighter fun _ => trivial).bind fun right => h.chain layer _
  · exact ⟨hts.mono (after_tighter layer), operator_of_ends hts⟩

theorem secondary_succ : Tracks (room + 1) Nothing (Ends (after none)) parseSecondary :=
  .shift (h.primary.bind fun receiver => h.suffixes receiver)

theorem suffixes_succ (receiver : Expr) :
    Guided (room + 1) (Ends ["("]) (Ends (after none)) (parseMembers · receiver) := by
  refine ⟨.shift (.accept (.name fun name => .look ?_ ?_) ?_), completes_parseMembers receiver⟩
  · exact (h.arguments.mono nofun).bind fun arguments => (h.suffixes _).mono fun _ _ => trivial
  · exact (h.suffixes _).mono fun ts hts => ⟨trivial, hts "(" (by decide)⟩
  · exact .pure _ fun ts hts => ⟨hts.mono (by decide), hts "." (by decide)⟩

theorem arguments_succ : Tracks (room + 1) Nothing Anything parseArguments := by
  refine .shift (.expect (.accept (.pure _ fun _ _ => trivial) ?_))
  refine (h.logical fun _ => ⟨trivial, avoids_cons.mpr (by decide)⟩).bind fun first => ?_
  refine h.moreArguments.bind fun more => ?_
  exact .last (mark ")") (by decide) (ends_cons (by decide)) _

theorem moreArguments_succ :
    Guided (room + 1) (Ends (after (some .logical))) (Ends ("," :: after (some .logical)))
      parseMoreArguments := by
  refine ⟨.shift (.accept ?_ ?_), completes_parseMoreArguments⟩
  · refine (h.logical fun _ => trivial).bind fun first => ?_
    exact h.moreArguments.bind fun more => .pure _ fun _ hts => hts
  · exact .pure _ fun ts hts => ⟨hts.mono (by decide), hts "," (by decide)⟩

/-- An object behind its keyword. -/
theorem object : Guided room Anything (Ends ["("]) fun room => (do
    let name ← acceptObjectName
    expect "DO"
    let (fields, methods) ← parseObjectMembers room
    expect "END"
    return Expr.object name fields methods) := by
  have hend (name : Option String) : Guided room Anything (Ends ["("]) fun room => (do
      let (fields, methods) ← parseObjectMembers room
      expect "END"
      return Expr.object name fields methods) := by
    refine h.members.bind fun members => ?_
    exact .last (word "END") (by decide) (meets_cons (by decide)) _
  constructor
  · simp only [acceptObjectName_bind]
    refine .look fun atBody => .ite (.expect (hend none)) ?_
    refine .acceptName (fun name => ?_) (.expect (hend none))
    exact .expect (word "DO") (by decide) (fun _ => trivial) (hend (some name))
  · refine ⟨[word "DO", word "END"], .object none [] [], by decide, fun ts _ => ⟨trivial, 1, ?_⟩⟩
    intro room hr
    obtain ⟨room, rfl, -⟩ := exists_room hr
    rfl

theorem primary_succ : Tracks (room + 1) Nothing (Ends ["("]) parsePrimary := by
  refine .shift (.acceptLiteral (fun value => .pure _ fun _ _ => trivial) ?_)
  refine .accept ?_ (.accept h.object (.acceptName (fun name => .look ?_ ?_) (.fail _)))
  · refine (h.logical fun _ => trivial).bind fun inner => ?_
    exact .last (mark ")") (by decide) (ends_cons (by decide)) _
  · exact (h.arguments.mono nofun).bind fun arguments => .pure _ fun _ _ => trivial
  · exact .pure _ fun ts hts => ⟨trivial, hts "(" (by decide)⟩

theorem members_succ : Guided (room + 1) Anything (Meets ["END"]) parseObjectMembers := by
  refine ⟨.shift (.look fun atEnd => ?_), completes_parseObjectMembers⟩
  cases atEnd with
  | true => exact .pure _ fun ts hts => ⟨trivial, hts.any_head?⟩
  | false =>
      refine .look fun atField => .ite ?_ (.look fun atMethod => .ite ?_ (.fail _))
      · refine (h.declaration.mono nofun).bind fun field => ?_
        exact h.members.bind fun members => .pure _ fun _ hts => hts
      · refine (h.definition.mono nofun).bind fun method => ?_
        exact h.members.bind fun members => .pure _ fun _ hts => hts

/-- A branch behind its condition. -/
theorem branch (condition : Expr) :
    Guided room (Ends (after (some .logical))) Anything fun room => (do
      expect "DO"
      let thenBody ← parseBlock room ["ELSE", "END"]
      let elseBody ← if ← accept "ELSE" then parseBlock room ["END"] else pure []
      expect "END"
      return Stmt.branch condition thenBody elseBody) := by
  refine .expect (word "DO") (by decide) (ends_cons (by decide)) ?_
  refine (h.block ["ELSE", "END"]).bind fun thenBody => ?_
  have hend (elseBody : List Stmt) {ahead : List Token → Prop}
      (hahead : ∀ ts, ahead (word "END" :: ts)) : Guided room ahead Anything fun _ => (do
        expect "END"
        return Stmt.branch condition thenBody elseBody) :=
    .last (word "END") (by decide) hahead _
  refine .accept ?_ ?_
  · exact (h.block ["END"]).bind fun elseBody => hend elseBody (meets_cons (by decide))
  · refine (Guided.pure _ fun _ hts => hts).bind fun elseBody => hend elseBody fun ts => ?_
    exact ⟨meets_cons (by decide) ts, avoids_cons.mpr (by decide)⟩

/-- A RETURN behind its value. -/
theorem ret (value : Option Expr) : Tracks room ahead Anything fun room => (do
    if ← accept "IF" then
      let condition ← parseExpression room .logical
      expect ";"
      return Stmt.branch condition [.ret value] []
    else
      expect ";"
      return Stmt.ret value) := by
  refine .accept ?_ (.expect (.pure _ fun _ _ => trivial))
  refine (h.logical fun _ => trivial).bind fun condition => ?_
  exact .last (mark ";") (by decide) (ends_cons (by decide)) _

/-- A statement behind the expression at its start. -/
theorem assignment (expression : Expr) :
    Guided room (Ends (after (some .logical))) Anything fun room => (do
      if ← looksAt "=" then
        unless expression.isTarget do
          fail .target
        advance
        let value ← parseExpression room .logical
        expect ";"
        return Stmt.assign expression value
      else
        expect ";"
        return Stmt.perform expression) := by
  have hend : Guided room (fun ts => Ends (after (some .logical)) ts ∧ Avoids "=" ts) Anything
      fun _ => (do expect ";"; return Stmt.perform expression) :=
    .last (mark ";") (by decide) (fun ts => ⟨ends_cons (by decide) ts, avoids_cons.mpr (by decide)⟩) _
  simp only [assignment_eq]
  split
  · refine .accept ((h.logical fun _ => trivial).bind fun value => ?_) hend
    exact .last (mark ";") (by decide) (ends_cons (by decide)) _
  · exact .look (.fail _) hend

/-- A RETURN behind its keyword. -/
theorem retValue : Guided room Anything Anything fun room => (do
    let bare ← do pure ((← looksAt ";") || (← looksAt "IF"))
    let value ← if bare then pure none else some <$> parseExpression room .logical
    if ← accept "IF" then
      let condition ← parseExpression room .logical
      expect ";"
      return Stmt.branch condition [.ret value] []
    else
      expect ";"
      return Stmt.ret value) := by
  refine ⟨.look fun atEnd => .look fun atIf => ?_, ?_⟩
  · simp only [pure_bind]
    refine .ite (h.ret none) ((((h.expression .logical).mono nofun).map some).bind fun value => ?_)
    refine ⟨h.ret value, [mark ";"], .ret value, by decide, fun ts _ => ?_⟩
    exact ⟨ends_cons (by decide) ts, 0, fun _ _ => rfl⟩
  · exact ⟨[mark ";"], .ret none, by decide, fun _ _ => ⟨trivial, 0, fun _ _ => rfl⟩⟩

theorem statement_succ : Tracks (room + 1) Nothing Anything parseStatement := by
  refine .shift (.look fun atLet => .ite ?_ (.look fun atDef => .ite ?_ ?_))
  · exact (h.declaration.mono nofun).bind fun d => .pure _ fun _ _ => trivial
  · exact (h.definition.mono nofun).bind fun d => .pure _ fun _ _ => trivial
  refine .accept ?_ (.accept (.name fun name => ?_) (.accept h.retValue ?_))
  · exact (h.logical fun _ => trivial).bind fun condition => h.branch condition
  · refine .expect (word "IN") (by decide) (fun _ => trivial) ?_
    refine (h.logical fun _ => trivial).bind fun iterable => ?_
    refine .expect (word "DO") (by decide) (ends_cons (by decide)) ?_
    refine (h.block ["END"]).bind fun body => ?_
    exact .last (word "END") (by decide) (meets_cons (by decide)) _
  · exact ((h.expression .logical).mono nofun).bind fun expression => h.assignment expression

end GuidedAt

theorem guidedAt (room : Nat) : GuidedAt room := by
  induction room with
  | zero =>
      exact {
        statement := .zero rfl
        block := fun closers => ⟨.zero rfl, completes_parseBlock closers⟩
        declaration := .zero rfl
        definition := .zero rfl
        expression := fun _ => .zero rfl
        chain := fun layer left => ⟨.zero rfl, completes_parseChain layer left⟩
        secondary := .zero rfl
        suffixes := fun receiver => ⟨.zero rfl, completes_parseMembers receiver⟩
        arguments := .zero rfl
        moreArguments := ⟨.zero rfl, completes_parseMoreArguments⟩
        primary := .zero rfl
        members := ⟨.zero rfl, completes_parseObjectMembers⟩ }
  | succ room h =>
      exact {
        statement := h.statement_succ
        block := h.block_succ
        declaration := h.declaration_succ
        definition := h.definition_succ
        expression := h.expression_succ
        chain := h.chain_succ
        secondary := h.secondary_succ
        suffixes := h.suffixes_succ
        arguments := h.arguments_succ
        moreArguments := h.moreArguments_succ
        primary := h.primary_succ
        members := h.members_succ }

theorem guided_parseSource (room : Nat) : Guided room Anything (· = []) parseSource := by
  induction room with
  | zero => exact ⟨.zero rfl, completes_parseSource⟩
  | succ room ih =>
      refine ⟨.shift ?_, completes_parseSource⟩
      simp only [parseSource_succ]
      refine .step nofun nofun fun head ended _ => ?_
      cases ended with
      | true =>
          refine .pure _ fun ts hts => ⟨trivial, ?_⟩
          rw [hts]
          rfl
      | false =>
          refine ((guidedAt room).statement.mono nofun).bind fun first => ?_
          exact ih.bind fun rest => .pure _ fun _ hts => hts

/-- A rule that the end of the input can follow, with the input at its end. -/
theorem Guided.whole {α : Type} {room : Nat} {behind : List Token → Prop} {rule : Nat → Parse α}
    (h : Guided room Anything behind rule) (hnil : behind []) :
    Guided room Anything (· = []) fun room => (do
      let a ← rule room
      decideBy .ended
      return a) := by
  refine h.bind fun a => ⟨.step nofun (fun _ _ hv => nomatch hv) fun _ _ _ => ?_, ?_⟩
  · refine .pure a fun ts hts => ?_
    rw [hts]
    exact ⟨hnil, rfl⟩
  · refine ⟨[], a, List.nil_subset _, fun ts hts => ?_⟩
    rw [hts]
    exact ⟨hnil, 0, fun _ _ => rfl⟩

theorem guided_parseWhole (room : Nat) (rule : Rule) :
    Guided room Anything (· = []) (parseWhole · rule) := by
  simp only [parseWhole_eq]
  cases rule with
  | source => exact ((guided_parseSource room).map Node.source).whole rfl
  | statement =>
      have hstatement : Guided room Anything Anything parseStatement :=
        ⟨(guidedAt room).statement.mono nofun, completes_parseStatement⟩
      exact (hstatement.map Node.stmt).whole trivial
  | expression => exact (((guidedAt room).logical fun _ => trivial).map Node.expr).whole (ends_nil _)

section Outcome
variable {rule : Rule} {ts : List Token}

/-- The room of a parse is enough for what enough room leads to. -/
theorem ComesTo.parseWhole {outcome : Except Stop (Node × List Token)}
    (h : ComesTo (Parser.parseWhole · rule) ts outcome) :
    Parser.parseWhole (roomFor ts) rule ts = outcome := by
  obtain ⟨enough, h⟩ := h
  rw [← parseWhole_roomFor rule ts (Nat.le_max_left _ enough)]
  exact h _ (Nat.le_max_right ..)

theorem parse_of_ok {tree : Node} {rest : List Token}
    (h : Parser.parseWhole (roomFor ts) rule ts = .ok (tree, rest)) : parse rule ts = .ok tree := by
  simp only [parse, StateT.run, h]

theorem parse_of_misfit {cause : Misfit} {taken rest : List Token}
    (h : Parser.parseWhole (roomFor (taken ++ rest)) rule (taken ++ rest) =
      .error (.misfit cause rest)) :
    parse rule (taken ++ rest) =
      .error (.error { cause, token := rest.head?, index := taken.length }) := by
  simp only [parse, StateT.run, h, List.length_append, Nat.add_sub_cancel]

/-- A parse error is a misfit in front of the tokens that are left. -/
theorem exists_misfit {e : ParseError} (h : parse rule ts = .error (.error e)) :
    ∃ cause rest, Parser.parseWhole (roomFor ts) rule ts = .error (.misfit cause rest) ∧
      e = { cause, token := rest.head?, index := ts.length - rest.length } := by
  unfold parse at h
  split at h <;> cases h
  next cause rest hw => exact ⟨cause, rest, hw, rfl⟩

end Outcome

theorem emitted_of_mem_fillers {token : Token} (h : token ∈ fillers) : token.Emitted :=
  ⟨_, lex_fillers ▸ h⟩

/-- A parse error blames the first token that cannot fit, or the end of the input. What stands in front
of it can be completed to an input that is accepted, and every input that goes on with the blamed token
is refused with the same error. -/
theorem parse_error_blames_first_misfit {rule : Rule} {ts : List Token} {e : ParseError}
    (h : parse rule ts = .error (.error e)) :
    e.index ≤ ts.length ∧ e.token = ts[e.index]? ∧ (e.token = none ↔ e.index = ts.length) ∧
      (∃ more tree, (∀ token ∈ more, token.Emitted) ∧
        parse rule (ts.take e.index ++ more) = .ok tree) ∧
      (e.index < ts.length →
        ∀ us, ts.take (e.index + 1) <+: us → parse rule us = .error (.error e)) := by
  obtain ⟨cause, rest, hw, rfl⟩ := exists_misfit h
  obtain ⟨taken, rfl, hsame, more, tree, hmore, hrule⟩ := (guided_parseWhole (roomFor ts) rule).blames hw
  simp only [List.length_append, Nat.add_sub_cancel]
  refine ⟨Nat.le_add_right .., ?_, ?_, ?_, ?_⟩
  · rw [List.getElem?_append_right (Nat.le_refl _), Nat.sub_self, List.head?_eq_getElem?]
  · cases rest <;> simp
  · refine ⟨more, tree, fun token ht => emitted_of_mem_fillers (hmore ht), ?_⟩
    have hy := (hrule [] rfl).2
    rw [List.append_nil] at hy
    rw [List.take_left]
    exact parse_of_ok hy.parseWhole
  · intro hlt us hus
    cases rest with
    | nil => simp at hlt
    | cons token rest =>
        obtain ⟨vs, rfl⟩ := hus
        have htake : (taken ++ token :: rest).take (taken.length + 1) ++ vs = taken ++ token :: vs := by
          simp [List.take_length_add_append]
        rw [htake]
        exact parse_of_misfit (hsame (token :: vs) rfl).parseWhole

/-- The program assigns to a call. Without the equals sign it could go on. -/
theorem parse_error_blames_first_misfit_target :
    let ts := (Token.lex "IF a DO f(1) = 2; END").tokens
    let e : ParseError := { cause := .target, token := some (mark "="), index := 7 }
    parse .source ts = .error (.error e) ∧
      (∃ more tree, (∀ token ∈ more, token.Emitted) ∧ parse .source (ts.take 7 ++ more) = .ok tree) ∧
      ∀ us, ts.take 8 <+: us → parse .source us = .error (.error e) := by
  intro ts e
  have h : parse .source ts = .error (.error e) := by rfl
  obtain ⟨-, -, -, hcompletes, hrefused⟩ := parse_error_blames_first_misfit h
  exact ⟨h, hcompletes, hrefused (by decide)⟩

end ProtoScript.Grammar
