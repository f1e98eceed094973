import ProtoScript.Proofs.Tree.Lookahead

/-!
# The parser follows each rule of the grammar

The parser decides by the next token alone, so it has to be shown at each choice that the next token
settles it: nothing that may follow a phrase goes on with it. The room that the parser takes for its
nesting is enough, as fewer than a dozen rules are entered between two tokens. There is one lemma for
each rule of the grammar.
-/

namespace ProtoScript.Grammar
open ProtoScript.Parser

variable {β : Type}

/-- The parser turns the tokens into the operand, whatever follows that does not go on with it. -/
def ParsesOperand (level : Option Layer) (ts : List Token) (e : Expr) : Prop :=
  Opens reserved ts ∧ ∀ room rest, 12 * ts.length + depth level ≤ room → Ends (after level) rest →
    Runs (parseOperand room level) (ts ++ rest) e rest

/-- The parser turns the tokens of a symbol into its tree. -/
def Parses : (symbol : Symbol) → List Token → symbol.Tree → Prop
  | .statement, ts, statement =>
      Opens ["ELSE", "END"] ts ∧ ∀ room rest, 12 * ts.length + 7 ≤ room →
        Runs (parseStatement room) (ts ++ rest) statement rest
  | .statements, ts, statements =>
      (∀ room closers closer rest, 12 * ts.length + 8 ≤ room → closers ⊆ ["ELSE", "END"] →
        closer.literal ∈ closers →
        Runs (parseBlock room closers) (ts ++ closer :: rest) statements (closer :: rest)) ∧
      ∀ room, 12 * ts.length + 8 ≤ room → Runs (parseSource room) ts statements []
  | .declaration, ts, d =>
      (∃ us, ts = word "LET" :: us) ∧ ∀ room rest, 12 * ts.length + 1 ≤ room →
        Runs (parseDeclaration room) (ts ++ rest) d rest
  | .definition, ts, d =>
      (∃ us, ts = word "DEF" :: us) ∧ ∀ room rest, 12 * ts.length + 1 ≤ room →
        Runs (parseDefinition room) (ts ++ rest) d rest
  | .optional, ts, value =>
      (ts = [] ∧ value = none) ∨ ∃ e, value = some e ∧ ParsesOperand (some .logical) ts e
  | .operand level, ts, e => ParsesOperand level ts e
  | .operands layer, ts, items =>
      Leads layer.symbols ts ∧ ∀ room left rest, 12 * ts.length + 1 ≤ room →
        Ends (after (some layer)) rest →
        Runs (parseChain room layer left) (ts ++ rest) (applyOperands left items) rest
  | .primary, ts, e =>
      Opens reserved ts ∧ ∀ room rest, 12 * ts.length + 1 ≤ room → Ends ["("] rest →
        Runs (parsePrimary room) (ts ++ rest) e rest
  | .suffixes, ts, items =>
      Leads ["."] ts ∧ ∀ room receiver rest, 12 * ts.length + 1 ≤ room → Ends (after none) rest →
        Runs (parseMembers room receiver) (ts ++ rest) (applySuffixes receiver items) rest
  | .arguments, ts, arguments =>
      (∃ us, ts = mark "(" :: us) ∧ ∀ room rest, 12 * ts.length + 1 ≤ room →
        Runs (parseArguments room) (ts ++ rest) arguments rest
  | .moreArguments, ts, arguments =>
      Leads [","] ts ∧ ∀ room rest, 12 * ts.length + 1 ≤ room →
        Ends ("," :: after (some .logical)) rest →
        Runs (parseMoreArguments room) (ts ++ rest) arguments rest
  | .members, ts, items =>
      ∀ room rest, 12 * ts.length + 2 ≤ room →
        Runs (parseObjectMembers room) (ts ++ word "END" :: rest) (fieldsOf items, methodsOf items)
          (word "END" :: rest)

/-- A bound on the room leaves some for the next rule. -/
theorem exists_room {room bound : Nat} (h : bound + 1 ≤ room) :
    ∃ n, room = n + 1 ∧ bound ≤ n :=
  ⟨room - 1, by omega, by omega⟩

theorem length_moreParameters (names : List String) :
    (moreParameters names).length = 2 * names.length := by
  induction names with
  | nil => rfl
  | cons name names ih =>
      simp only [moreParameters, List.length_cons, ih]
      omega

theorem runs_parseMoreParameters (names : List String) {room : Nat} (rest : List Token)
    (hr : names.length + 1 ≤ room) :
    Runs (parseMoreParameters room) (moreParameters names ++ mark ")" :: rest) names
      (mark ")" :: rest) := by
  induction names generalizing room with
  | nil =>
      obtain ⟨room, rfl, -⟩ := exists_room hr
      exact .skip (avoids_cons.mpr (by decide)) .pure
  | cons name names ih =>
      obtain ⟨room, rfl, hroom⟩ := exists_room hr
      exact .accept (mark ",") (.name ((ih hroom).bind .pure))

theorem runs_parseParameters (names : List String) {room : Nat} (rest : List Token)
    (hr : names.length + 1 ≤ room) :
    Runs (parseParameters room) (parameters names ++ rest) names rest := by
  cases names with
  | nil =>
      refine .expect (mark "(") ?_
      have hn : Runs acceptName (mark ")" :: rest) none (mark ")" :: rest) := rfl
      exact hn.bind (.bind .pure (.expect (mark ")") .pure))
  | cons name names =>
      simp only [parameters, List.cons_append, List.append_assoc, List.nil_append]
      refine .expect (mark "(") ?_
      have hn : ∀ us, Runs acceptName (word name :: us) (some name) us := fun us => rfl
      refine (hn _).bind ?_
      refine (runs_parseMoreParameters names rest (by simp at hr; omega)).bind ?_
      exact .bind .pure (.expect (mark ")") .pure)

/-- A token that denotes a value is taken for that literal. -/
theorem literalValue?_of_denotes {token : Token} {value : Literal} (hd : Denotes token value)
    (ht : token.Shaped) (rest : List Token) : literalValue? token rest = some (.ok value) := by
  have hword (hk : token.kind ≠ .identifier) :
      token.literal ≠ "NIL" ∧ token.literal ≠ "TRUE" ∧ token.literal ≠ "FALSE" := by
    have h := not_mem_keywords ht hk
    refine ⟨?_, ?_, ?_⟩ <;> exact fun hl => h (hl ▸ by decide)
  cases hd with
  | nil | true | false => rfl
  | number hk hv =>
      obtain ⟨hnil, htrue, hfalse⟩ := hword (by rcases hk with hk | hk <;> simp [hk])
      have hnum : numberValue token rest = .ok value := numberValue_eq_ok_iff.mpr hv
      rcases hk with hk | hk <;> simp [literalValue?, hnil, htrue, hfalse, hk, hnum]
  | character text | string text =>
      obtain ⟨hnil, htrue, hfalse⟩ := hword (by simp)
      simp_all [literalValue?]

namespace Parses

/-- An expression in front of what cannot go on with it. -/
theorem expression {ts us rest : List Token} {e : Expr} {room : Nat} {f : Expr → Parse β} {b : β}
    (h : Parses .expression ts e) (hr : 12 * ts.length + 6 ≤ room)
    (he : Ends (after (some .logical)) us) (hf : Runs (f e) us b rest) :
    Runs (parseExpression room .logical >>= f) (ts ++ us) b rest :=
  (h.2 room us hr he).bind hf

/-- A block in front of a keyword that closes it. -/
theorem block {ts us rest : List Token} {body : List Stmt} {room : Nat} {closers : List String}
    {closer : Token} {f : List Stmt → Parse β} {b : β} (h : Parses .statements ts body)
    (hr : 12 * ts.length + 8 ≤ room) (hs : closers ⊆ ["ELSE", "END"])
    (hc : closer.literal ∈ closers) (hf : Runs (f body) (closer :: us) b rest) :
    Runs (parseBlock room closers >>= f) (ts ++ closer :: us) b rest :=
  (h.1 room closers closer us hr hs hc).bind hf

theorem letBare (name : String) :
    Parses .declaration [word "LET", word name, mark ";"] { name, value := none } := by
  refine ⟨⟨_, rfl⟩, fun room rest hr => ?_⟩
  obtain ⟨room, rfl, -⟩ := exists_room hr
  refine .expect (word "LET") (.name (.skip (avoids_cons.mpr (by decide)) ?_))
  exact .bind .pure (.expect (mark ";") .pure)

theorem letValue {ts : List Token} {value : Expr} (name : String)
    (hv : Parses .expression ts value) :
    Parses .declaration (word "LET" :: word name :: mark "=" :: (ts ++ [mark ";"]))
      { name, value := some value } := by
  refine ⟨⟨_, rfl⟩, fun room rest hr => ?_⟩
  obtain ⟨room, rfl, hroom⟩ := exists_room hr
  simp only [List.length_cons, List.length_append] at hroom
  simp only [List.cons_append, List.append_assoc, List.nil_append]
  refine .expect (word "LET") (.name (.accept (mark "=") ?_))
  have hrun := hv.2 room (mark ";" :: rest) (by simp only [depth]; omega) (ends_cons (by decide) rest)
  exact .bind (.map hrun) (.expect (mark ";") .pure)

theorem definition {ts : List Token} {body : List Stmt} (name : String) (names : List String)
    (hb : Parses .statements ts body) :
    Parses .definition
      (word "DEF" :: word name :: (parameters names ++ word "DO" :: (ts ++ [word "END"])))
      { name, parameters := names, body } := by
  refine ⟨⟨_, rfl⟩, fun room rest hr => ?_⟩
  obtain ⟨room, rfl, hroom⟩ := exists_room hr
  have hn : names.length ≤ (parameters names).length := by
    cases names with
    | nil => simp
    | cons name names => simp [parameters, length_moreParameters]; omega
  simp only [List.length_cons, List.length_append] at hroom
  simp only [List.cons_append, List.append_assoc, List.nil_append]
  refine .expect (word "DEF") (.name ?_)
  refine (runs_parseParameters names _ (by omega)).bind (.expect (word "DO") ?_)
  refine hb.block (by omega) (by decide) (by decide) ?_
  exact .expect (word "END") .pure

theorem noStatement : Parses .statements [] [] := by
  refine ⟨fun room closers closer rest hr hs hc => ?_, fun room hr => ?_⟩
  · obtain ⟨room, rfl, -⟩ := exists_room hr
    change (if closers.contains closer.literal then Pure.pure [] else _ : Parse (List Stmt))
      (closer :: rest) = _
    rw [if_pos (by simpa using hc)]
    rfl
  · obtain ⟨room, rfl, -⟩ := exists_room hr
    rfl

theorem statements {ts us : List Token} {first : Stmt} {rest : List Stmt}
    (hf : Parses .statement ts first) (hr : Parses .statements us rest) :
    Parses .statements (ts ++ us) (first :: rest) := by
  obtain ⟨token, vs, rfl, ht⟩ := hf.1
  refine ⟨fun room closers closer more hroom hs hc => ?_, fun room hroom => ?_⟩
  · obtain ⟨room, rfl, hn⟩ := exists_room hroom
    simp only [List.length_append, List.length_cons] at hn
    have hfirst := hf.2 room (us ++ closer :: more) (by simp only [List.length_cons]; omega)
    have hrest := hr.1 room closers closer more (by omega) hs hc
    change (if closers.contains token.literal then Pure.pure [] else
      (do let statement ← parseStatement room
          return statement :: (← parseBlock room closers)) : Parse (List Stmt)) _ = _
    rw [if_neg (by simpa using fun h => ht (hs h)), List.append_assoc]
    exact hfirst.bind (hrest.bind .pure)
  · obtain ⟨room, rfl, hn⟩ := exists_room hroom
    simp only [List.length_append, List.length_cons] at hn
    have hfirst := hf.2 room us (by simp only [List.length_cons]; omega)
    have hrest := hr.2 room (by omega)
    change (do let statement ← parseStatement room
               return statement :: (← parseSource room) : Parse (List Stmt)) _ = _
    exact hfirst.bind (hrest.bind .pure)

theorem declare {ts : List Token} {d : Declaration} (hd : Parses .declaration ts d) :
    Parses .statement ts (.declare d) := by
  obtain ⟨⟨us, rfl⟩, hd⟩ := hd
  refine ⟨⟨_, _, rfl, by decide⟩, fun room rest hr => ?_⟩
  obtain ⟨room, rfl, hn⟩ := exists_room hr
  exact .seen (word "LET") ((hd room rest (by omega)).bind .pure)

theorem define {ts : List Token} {d : Definition} (hd : Parses .definition ts d) :
    Parses .statement ts (.define d) := by
  obtain ⟨⟨us, rfl⟩, hd⟩ := hd
  refine ⟨⟨_, _, rfl, by decide⟩, fun room rest hr => ?_⟩
  obtain ⟨room, rfl, hn⟩ := exists_room hr
  refine .unseen (avoids_cons.mpr (by decide)) (.seen (word "DEF") ?_)
  exact (hd room rest (by omega)).bind .pure

theorem branch {cs ts : List Token} {condition : Expr} {body : List Stmt}
    (hc : Parses .expression cs condition) (ht : Parses .statements ts body) :
    Parses .statement (word "IF" :: (cs ++ word "DO" :: (ts ++ [word "END"])))
      (.branch condition body []) := by
  refine ⟨⟨_, _, rfl, by decide⟩, fun room rest hr => ?_⟩
  obtain ⟨room, rfl, hn⟩ := exists_room hr
  simp only [List.length_cons, List.length_append] at hn
  simp only [List.cons_append, List.append_assoc, List.nil_append]
  refine .unseen (avoids_cons.mpr (by decide)) (.unseen (avoids_cons.mpr (by decide)) ?_)
  refine .accept (word "IF") (hc.expression (by omega) (ends_cons (by decide) _) ?_)
  refine .expect (word "DO") (ht.block (by omega) (by decide) (by decide) ?_)
  refine .skip (avoids_cons.mpr (by decide)) (.bind .pure ?_)
  exact .expect (word "END") .pure

theorem branchElse {cs ts es : List Token} {condition : Expr} {thenBody elseBody : List Stmt}
    (hc : Parses .expression cs condition) (ht : Parses .statements ts thenBody)
    (he : Parses .statements es elseBody) :
    Parses .statement
      (word "IF" :: (cs ++ word "DO" :: (ts ++ word "ELSE" :: (es ++ [word "END"]))))
      (.branch condition thenBody elseBody) := by
  refine ⟨⟨_, _, rfl, by decide⟩, fun room rest hr => ?_⟩
  obtain ⟨room, rfl, hn⟩ := exists_room hr
  simp only [List.length_cons, List.length_append] at hn
  simp only [List.cons_append, List.append_assoc, List.nil_append]
  refine .unseen (avoids_cons.mpr (by decide)) (.unseen (avoids_cons.mpr (by decide)) ?_)
  refine .accept (word "IF") (hc.expression (by omega) (ends_cons (by decide) _) ?_)
  refine .expect (word "DO") (ht.block (by omega) (by decide) (by decide) ?_)
  refine .accept (word "ELSE") (he.block (by omega) (by decide) (by decide) ?_)
  exact .expect (word "END") .pure

theorem loop {is ts : List Token} {iterable : Expr} {body : List Stmt} (name : String)
    (hi : Parses .expression is iterable) (hb : Parses .statements ts body) :
    Parses .statement
      (word "FOR" :: word name :: word "IN" :: (is ++ word "DO" :: (ts ++ [word "END"])))
      (.loop name iterable body) := by
  refine ⟨⟨_, _, rfl, by decide⟩, fun room rest hr => ?_⟩
  obtain ⟨room, rfl, hn⟩ := exists_room hr
  simp only [List.length_cons, List.length_append] at hn
  simp only [List.cons_append, List.append_assoc, List.nil_append]
  refine .unseen (avoids_cons.mpr (by decide)) (.unseen (avoids_cons.mpr (by decide)) ?_)
  refine .skip (avoids_cons.mpr (by decide)) (.accept (word "FOR") (.name ?_))
  refine .expect (word "IN") (hi.expression (by omega) (ends_cons (by decide) _) ?_)
  refine .expect (word "DO") (hb.block (by omega) (by decide) (by decide) ?_)
  exact .expect (word "END") .pure

/-- A RETURN up to its value leads to what stands behind the value. -/
theorem ret_value {vs us rest : List Token} {value : Option Expr} {room : Nat} {s : Stmt}
    {token : Token} (hv : Parses .optional vs value) (hr : 12 * vs.length + 6 ≤ room)
    (ht : token.literal = ";" ∨ token.literal = "IF")
    (h : Runs (do
      if ← Parser.accept "IF" then
        let condition ← parseExpression room .logical
        expect ";"
        return .branch condition [.ret value] []
      else
        expect ";"
        return .ret value) (token :: us) s rest) :
    Runs (parseStatement (room + 1)) (word "RETURN" :: (vs ++ token :: us)) s rest := by
  refine .unseen (avoids_cons.mpr (by decide)) (.unseen (avoids_cons.mpr (by decide)) ?_)
  refine .skip (avoids_cons.mpr (by decide)) (.skip (avoids_cons.mpr (by decide)) ?_)
  refine .accept (word "RETURN") ?_
  rcases hv with ⟨rfl, rfl⟩ | ⟨e, rfl, he⟩
  · have hl : ∀ text, Runs (looksAt text) (token :: us) (decide (token.literal = text))
        (token :: us) := fun text => rfl
    refine (hl ";").bind ((hl "IF").bind (.bind .pure ?_))
    rcases ht with ht | ht <;> simp only [ht] <;> exact .bind .pure h
  · refine .unseen (he.1.avoids (by decide) _) (.unseen (he.1.avoids (by decide) _) (.bind .pure ?_))
    have hstop : token.literal ∉ after (some .logical) := by
      rcases ht with ht | ht <;> rw [ht] <;> decide
    exact .bind (.map (he.2 room _ hr (ends_cons hstop us))) h

theorem ret {vs : List Token} {value : Option Expr} (hv : Parses .optional vs value) :
    Parses .statement (word "RETURN" :: (vs ++ [mark ";"])) (.ret value) := by
  refine ⟨⟨_, _, rfl, by decide⟩, fun room rest hr => ?_⟩
  obtain ⟨room, rfl, hn⟩ := exists_room hr
  simp only [List.length_cons, List.length_append] at hn
  simp only [List.cons_append, List.append_assoc, List.nil_append]
  refine hv.ret_value (by omega) (.inl rfl) ?_
  exact .skip (avoids_cons.mpr (by decide)) (.expect (mark ";") .pure)

theorem retIf {vs cs : List Token} {value : Option Expr} {condition : Expr}
    (hv : Parses .optional vs value) (hc : Parses .expression cs condition) :
    Parses .statement (word "RETURN" :: (vs ++ word "IF" :: (cs ++ [mark ";"])))
      (.branch condition [.ret value] []) := by
  refine ⟨⟨_, _, rfl, by decide⟩, fun room rest hr => ?_⟩
  obtain ⟨room, rfl, hn⟩ := exists_room hr
  simp only [List.length_cons, List.length_append] at hn
  simp only [List.cons_append, List.append_assoc, List.nil_append]
  refine hv.ret_value (by omega) (.inr rfl) (.accept (word "IF") ?_)
  exact hc.expression (by omega) (ends_cons (by decide) rest) (.expect (mark ";") .pure)

/-- A statement that starts with an expression leads to what stands behind it. -/
theorem expression_statement {ts us rest : List Token} {e : Expr} {room : Nat} {s : Stmt}
    (he : Parses .expression ts e) (hr : 12 * ts.length + 6 ≤ room)
    (hu : Ends (after (some .logical)) us)
    (h : Runs (do
      if ← looksAt "=" then
        unless e.isTarget do
          fail .target
        advance
        let value ← parseExpression room .logical
        expect ";"
        return .assign e value
      else
        expect ";"
        return .perform e) us s rest) :
    Runs (parseStatement (room + 1)) (ts ++ us) s rest := by
  have hopen {text : String} (ht : text ∈ reserved) : Avoids text (ts ++ us) := he.1.avoids ht us
  refine .unseen (hopen (by decide)) (.unseen (hopen (by decide)) ?_)
  refine .skip (hopen (by decide)) (.skip (hopen (by decide)) (.skip (hopen (by decide)) ?_))
  exact he.expression hr hu h

theorem perform {ts : List Token} {e : Expr} (he : Parses .expression ts e) :
    Parses .statement (ts ++ [mark ";"]) (.perform e) := by
  refine ⟨he.1.append (by decide) _, fun room rest hr => ?_⟩
  obtain ⟨room, rfl, hn⟩ := exists_room hr
  simp only [List.length_cons, List.length_append] at hn
  simp only [List.append_assoc, List.cons_append, List.nil_append]
  refine he.expression_statement (by omega) (ends_cons (by decide) rest) ?_
  exact .unseen (avoids_cons.mpr (by decide)) (.expect (mark ";") .pure)

theorem assign {ts vs : List Token} {target value : Expr} (ht : Parses .expression ts target)
    (ha : target.isTarget = true) (hv : Parses .expression vs value) :
    Parses .statement (ts ++ mark "=" :: (vs ++ [mark ";"])) (.assign target value) := by
  refine ⟨ht.1.append (by decide) _, fun room rest hr => ?_⟩
  obtain ⟨room, rfl, hn⟩ := exists_room hr
  simp only [List.length_cons, List.length_append] at hn
  simp only [List.append_assoc, List.cons_append, List.nil_append]
  refine ht.expression_statement (by omega) (ends_cons (by decide) _) (.seen (mark "=") ?_)
  simp only [ha]
  have hadvance : Runs advance (mark "=" :: (vs ++ mark ";" :: rest)) () (vs ++ mark ";" :: rest) :=
    rfl
  refine hadvance.bind (hv.expression (by omega) (ends_cons (by decide) rest) ?_)
  exact .expect (mark ";") .pure

theorem noValue : Parses .optional [] none :=
  .inl ⟨rfl, rfl⟩

theorem value {ts : List Token} {e : Expr} (he : Parses .expression ts e) :
    Parses .optional ts (some e) :=
  .inr ⟨e, rfl, he⟩

theorem chain {layer : Layer} {ts us : List Token} {first : Expr} {items : List (Operator × Expr)}
    (hf : Parses (.operand layer.tighter) ts first) (hi : Parses (.operands layer) us items) :
    Parses (.operand (some layer)) (ts ++ us) (applyOperands first items) := by
  refine ⟨hf.1.append (fun _ h => h) us, fun room rest hr hrest => ?_⟩
  rw [List.length_append, ← depth_tighter, ← Nat.add_assoc] at hr
  obtain ⟨room, rfl, hn⟩ := exists_room hr
  have hdepth := depth_bounds layer.tighter
  have hends : Ends (after layer.tighter) (us ++ rest) :=
    hi.1.ends (not_mem_after_tighter layer) (hrest.mono (after_tighter layer))
  change Runs (parseExpression (room + 1) layer) _ _ _
  rw [parseExpression_succ, List.append_assoc]
  refine (hf.2 room (us ++ rest) (by omega) hends).bind ?_
  exact hi.2 room first rest (by omega) hrest

theorem noOperand (layer : Layer) : Parses (.operands layer) [] [] := by
  refine ⟨.inl rfl, fun room left rest hr hrest => ?_⟩
  obtain ⟨room, rfl, -⟩ := exists_room hr
  have hnone : Runs (acceptOperator layer) rest none rest := by
    cases rest with
    | nil => rfl
    | cons token rest =>
        have hn : token.literal ∉ layer.symbols := fun h =>
          avoids_cons.mp (hrest _ (symbols_subset_after layer h)) rfl
        rw [Runs, acceptOperator_cons, if_neg hn]
  rw [List.nil_append, parseChain_succ]
  exact hnone.bind .pure

theorem operands {layer : Layer} {ts us : List Token} {right : Expr}
    {items : List (Operator × Expr)} {symbol : String} (hs : symbol ∈ layer.symbols)
    (hr : Parses (.operand layer.tighter) ts right) (hi : Parses (.operands layer) us items) :
    Parses (.operands layer) (operatorToken layer symbol :: (ts ++ us))
      ((Operator.ofSymbol symbol, right) :: items) := by
  have hl := operatorToken_literal layer symbol
  refine ⟨.inr ⟨_, _, rfl, by rwa [hl]⟩, fun room left rest hroom hrest => ?_⟩
  obtain ⟨room, rfl, hn⟩ := exists_room hroom
  simp only [List.length_cons, List.length_append] at hn
  have hdepth := depth_bounds layer.tighter
  have hsome : Runs (acceptOperator layer) (operatorToken layer symbol :: (ts ++ (us ++ rest)))
      (some (Operator.ofSymbol symbol)) (ts ++ (us ++ rest)) := by
    rw [Runs, acceptOperator_cons, hl, if_pos hs]
  have hends : Ends (after layer.tighter) (us ++ rest) :=
    hi.1.ends (not_mem_after_tighter layer) (hrest.mono (after_tighter layer))
  rw [parseChain_succ, List.cons_append, List.append_assoc]
  refine hsome.bind ((hr.2 room (us ++ rest) (by omega) hends).bind ?_)
  exact hi.2 room _ rest (by omega) hrest

theorem secondary {ts us : List Token} {receiver : Expr}
    {items : List (String × Option (List Expr))} (hp : Parses .primary ts receiver)
    (hi : Parses .suffixes us items) :
    Parses (.operand none) (ts ++ us) (applySuffixes receiver items) := by
  refine ⟨hp.1.append (fun _ h => h) us, fun room rest hr hrest => ?_⟩
  obtain ⟨room, rfl, hn⟩ := exists_room hr
  simp only [List.length_append] at hn
  have hends : Ends ["("] (us ++ rest) := hi.1.ends (by decide) (hrest.mono (by decide))
  rw [List.append_assoc]
  exact (hp.2 room (us ++ rest) (by omega) hends).bind (hi.2 room receiver rest (by omega) hrest)

theorem noSuffix : Parses .suffixes [] [] := by
  refine ⟨.inl rfl, fun room receiver rest hr hrest => ?_⟩
  obtain ⟨room, rfl, -⟩ := exists_room hr
  exact .skip (hrest "." (by decide)) .pure

theorem property {us : List Token} {items : List (String × Option (List Expr))} (name : String)
    (hi : Parses .suffixes us items) :
    Parses .suffixes (mark "." :: word name :: us) ((name, none) :: items) := by
  refine ⟨.inr ⟨_, _, rfl, by decide⟩, fun room receiver rest hr hrest => ?_⟩
  obtain ⟨room, rfl, hn⟩ := exists_room hr
  simp only [List.length_cons] at hn
  have hends : Ends ["("] (us ++ rest) := hi.1.ends (by decide) (hrest.mono (by decide))
  refine .accept (mark ".") (.name (.unseen (hends "(" (by decide)) ?_))
  exact hi.2 room _ rest (by omega) hrest

theorem method {as us : List Token} {arguments : List Expr}
    {items : List (String × Option (List Expr))} (name : String)
    (ha : Parses .arguments as arguments) (hi : Parses .suffixes us items) :
    Parses .suffixes (mark "." :: word name :: (as ++ us)) ((name, some arguments) :: items) := by
  obtain ⟨⟨vs, rfl⟩, ha⟩ := ha
  refine ⟨.inr ⟨_, _, rfl, by decide⟩, fun room receiver rest hr hrest => ?_⟩
  obtain ⟨room, rfl, hn⟩ := exists_room hr
  simp only [List.length_cons, List.length_append] at hn
  have hargs := ha room (us ++ rest) (by simp only [List.length_cons]; omega)
  simp only [List.cons_append, List.append_assoc]
  refine .accept (mark ".") (.name (.seen (mark "(") (hargs.bind ?_)))
  exact hi.2 room _ rest (by omega) hrest

theorem noArgument : Parses .arguments [mark "(", mark ")"] [] := by
  refine ⟨⟨_, rfl⟩, fun room rest hr => ?_⟩
  obtain ⟨room, rfl, -⟩ := exists_room hr
  exact .expect (mark "(") (.accept (mark ")") .pure)

theorem arguments {ts us : List Token} {first : Expr} {more : List Expr}
    (hf : Parses .expression ts first) (hm : Parses .moreArguments us more) :
    Parses .arguments (mark "(" :: (ts ++ (us ++ [mark ")"]))) (first :: more) := by
  refine ⟨⟨_, rfl⟩, fun room rest hr => ?_⟩
  obtain ⟨room, rfl, hn⟩ := exists_room hr
  simp only [List.length_cons, List.length_append] at hn
  simp only [List.cons_append, List.append_assoc, List.nil_append]
  have hends : Ends (after (some .logical)) (us ++ mark ")" :: rest) :=
    hm.1.ends (by decide) (ends_cons (by decide) rest)
  refine .expect (mark "(") (.skip (hf.1.avoids (by decide) _) ?_)
  refine hf.expression (by omega) hends ?_
  refine (hm.2 room (mark ")" :: rest) (by omega) (ends_cons (by decide) rest)).bind ?_
  exact .expect (mark ")") .pure

theorem noMoreArgument : Parses .moreArguments [] [] := by
  refine ⟨.inl rfl, fun room rest hr hrest => ?_⟩
  obtain ⟨room, rfl, -⟩ := exists_room hr
  exact .skip (hrest "," (by decide)) .pure

theorem moreArguments {ts us : List Token} {first : Expr} {more : List Expr}
    (hf : Parses .expression ts first) (hm : Parses .moreArguments us more) :
    Parses .moreArguments (mark "," :: (ts ++ us)) (first :: more) := by
  refine ⟨.inr ⟨_, _, rfl, by decide⟩, fun room rest hr hrest => ?_⟩
  obtain ⟨room, rfl, hn⟩ := exists_room hr
  simp only [List.length_cons, List.length_append] at hn
  have hends : Ends (after (some .logical)) (us ++ rest) :=
    hm.1.ends (by decide) (hrest.mono (by decide))
  simp only [List.cons_append, List.append_assoc]
  refine .accept (mark ",") (hf.expression (by omega) hends ?_)
  exact (hm.2 room rest (by omega) hrest).bind .pure

theorem literal {token : Token} {value : Literal} (hd : Denotes token value) (ht : token.Shaped) :
    Parses .primary [token] (.literal value) := by
  refine ⟨⟨_, _, rfl, ?_⟩, fun room rest hr hrest => ?_⟩
  · have hplain (hi : token.kind ≠ .identifier) (ho : token.kind ≠ .operator) :
        token.literal ∉ reserved := not_mem_reserved ht (not_mem_keywords ht hi) ho
    cases hd with
    | nil | true | false => decide
    | number hk hv => rcases hk with hk | hk <;> exact hplain (by simp [hk]) (by simp [hk])
    | character text | string text => exact hplain (by simp) (by simp)
  · obtain ⟨room, rfl, -⟩ := exists_room hr
    have hl : Runs acceptLiteral (token :: rest) (some value) rest := by
      rw [Runs, acceptLiteral_cons, literalValue?_of_denotes hd ht]
    exact hl.bind .pure

theorem group {ts : List Token} {e : Expr} (he : Parses .expression ts e) :
    Parses .primary (mark "(" :: (ts ++ [mark ")"])) (.group e) := by
  refine ⟨⟨_, _, rfl, by decide⟩, fun room rest hr hrest => ?_⟩
  obtain ⟨room, rfl, hn⟩ := exists_room hr
  simp only [List.length_cons, List.length_append] at hn
  simp only [List.cons_append, List.append_assoc, List.nil_append]
  have hl : Runs acceptLiteral (mark "(" :: (ts ++ mark ")" :: rest)) none
      (mark "(" :: (ts ++ mark ")" :: rest)) := rfl
  refine hl.bind (.accept (mark "(") ?_)
  exact he.expression (by omega) (ends_cons (by decide) rest) (.expect (mark ")") .pure)

theorem object {ms : List Token} {items : List (Declaration ⊕ Definition)} (name : Option String)
    (hname : KeywordFree name.toList) (hm : Parses .members ms items) :
    Parses .primary (word "OBJECT" :: (objectName name ++ word "DO" :: (ms ++ [word "END"])))
      (.object name (fieldsOf items) (methodsOf items)) := by
  refine ⟨⟨_, _, rfl, by decide⟩, fun room rest hr hrest => ?_⟩
  obtain ⟨room, rfl, hn⟩ := exists_room hr
  simp only [List.length_cons, List.length_append] at hn
  simp only [List.cons_append, List.append_assoc, List.nil_append]
  have hl : ∀ us, Runs acceptLiteral (word "OBJECT" :: us) none (word "OBJECT" :: us) :=
    fun us => rfl
  refine (hl _).bind (.skip (avoids_cons.mpr (by decide)) (.accept (word "OBJECT") ?_))
  have ho : ∀ us, Runs acceptObjectName (objectName name ++ word "DO" :: us) name
      (word "DO" :: us) := by
    intro us
    cases name with
    | none => exact .seen (word "DO") .pure
    | some name =>
        have hne : name ≠ "DO" := fun h => hname name (by simp) (h ▸ by decide)
        have hn : Runs acceptName (word name :: word "DO" :: us) (some name) (word "DO" :: us) := rfl
        exact .unseen (avoids_cons.mpr hne) hn
  refine (ho _).bind (.expect (word "DO") ?_)
  refine (hm room rest (by omega)).bind ?_
  exact .expect (word "END") .pure

/-- A name is taken for no other primary expression. -/
theorem runs_name {name : String} {us rest : List Token} {room : Nat} {e : Expr}
    (hname : name ∉ keywords) (ht : (word name).Shaped)
    (h : Runs (do
      if ← looksAt "(" then return .call name (← parseArguments room)
      else return .name name) us e rest) :
    Runs (parsePrimary (room + 1)) (word name :: us) e rest := by
  have hne {text : String} (h : text ∈ keywords) : name ≠ text := fun hn => hname (hn ▸ h)
  have hlit : literalValue? (word name) (word name :: us) = none := by
    have hnil : name ≠ "NIL" := hne (by decide)
    have htrue : name ≠ "TRUE" := hne (by decide)
    have hfalse : name ≠ "FALSE" := hne (by decide)
    simp [literalValue?, word, hnil, htrue, hfalse]
  have hl : Runs acceptLiteral (word name :: us) none (word name :: us) := by
    rw [Runs, acceptLiteral_cons, hlit]
  have hopen : name ≠ "(" := by
    intro hn
    have hterm : Terminal (mark "(") := by decide
    cases hterm.eq ht hn
  have hn : Runs acceptName (word name :: us) (some name) us := rfl
  refine hl.bind (.skip (avoids_cons.mpr hopen) (.skip (avoids_cons.mpr (hne (by decide))) ?_))
  exact hn.bind h

theorem call {as : List Token} {arguments : List Expr} {name : String} (hname : name ∉ keywords)
    (ht : (word name).Shaped) (ha : Parses .arguments as arguments) :
    Parses .primary (word name :: as) (.call name arguments) := by
  obtain ⟨⟨vs, rfl⟩, ha⟩ := ha
  refine ⟨⟨_, _, rfl, not_mem_reserved ht hname (by simp [word])⟩, fun room rest hr hrest => ?_⟩
  obtain ⟨room, rfl, hn⟩ := exists_room hr
  simp only [List.length_cons] at hn
  refine runs_name hname ht (.seen (mark "(") ?_)
  exact (ha room rest (by simp only [List.length_cons]; omega)).bind .pure

theorem name {name : String} (hname : name ∉ keywords) (ht : (word name).Shaped) :
    Parses .primary [word name] (.name name) := by
  refine ⟨⟨_, _, rfl, not_mem_reserved ht hname (by simp [word])⟩, fun room rest hr hrest => ?_⟩
  obtain ⟨room, rfl, -⟩ := exists_room hr
  exact runs_name hname ht (.unseen (hrest "(" (by decide)) .pure)

theorem noMember : Parses .members [] [] := by
  intro room rest hr
  obtain ⟨room, rfl, -⟩ := exists_room hr
  exact .seen (word "END") .pure

theorem field {ts us : List Token} {d : Declaration} {items : List (Declaration ⊕ Definition)}
    (hd : Parses .declaration ts d) (hi : Parses .members us items) :
    Parses .members (ts ++ us) (.inl d :: items) := by
  obtain ⟨⟨vs, rfl⟩, hd⟩ := hd
  intro room rest hr
  obtain ⟨room, rfl, hn⟩ := exists_room hr
  simp only [List.length_append, List.length_cons] at hn
  rw [List.append_assoc]
  refine .unseen (avoids_cons.mpr (by decide)) (.seen (word "LET") ?_)
  refine (hd room _ (by simp only [List.length_cons]; omega)).bind ?_
  exact (hi room rest (by omega)).bind .pure

theorem ownMethod {ts us : List Token} {d : Definition} {items : List (Declaration ⊕ Definition)}
    (hd : Parses .definition ts d) (hi : Parses .members us items) :
    Parses .members (ts ++ us) (.inr d :: items) := by
  obtain ⟨⟨vs, rfl⟩, hd⟩ := hd
  intro room rest hr
  obtain ⟨room, rfl, hn⟩ := exists_room hr
  simp only [List.length_append, List.length_cons] at hn
  rw [List.append_assoc]
  refine .unseen (avoids_cons.mpr (by decide)) (.unseen (avoids_cons.mpr (by decide)) ?_)
  refine .seen (word "DEF") ((hd room _ (by simp only [List.length_cons]; omega)).bind ?_)
  exact (hi room rest (by omega)).bind .pure

end Parses

end ProtoScript.Grammar
