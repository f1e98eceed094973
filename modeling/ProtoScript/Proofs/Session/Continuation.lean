import ProtoScript.Proofs.Session.Blocks
import ProtoScript.Proofs.Session.Concatenation

/-!
# When a unit goes on

The completeness test knows no grammar: it counts the words around blocks and looks at the last token. On
programs it agrees with the grammar all the same. A whole statement passes it, and of a statement that is
cut short nothing passes but what ends with an object that is written outside of all blocks.
-/

namespace ProtoScript.Grammar
open ProtoScript.Parser

/-- What stands in front of a cut through a phrase, where the cut is right behind an object expression and
that expression is in no block of the phrase. The statements of a body and the members of an object are in
a block, so no rule leads into them. -/
inductive EndsObject : (symbol : Symbol) → List Token → symbol.Tree → (front : List Token) → Prop
  | object {ms items} (name : Option String) (hm : Derives .members ms items) :
      EndsObject .primary
        (word "OBJECT" :: (objectName name ++ word "DO" :: (ms ++ [word "END"])))
        (.object name (fieldsOf items) (methodsOf items))
        (word "OBJECT" :: (objectName name ++ word "DO" :: (ms ++ [word "END"])))
  | group {ts e front} (h : EndsObject .expression ts e front) :
      EndsObject .primary (mark "(" :: (ts ++ [mark ")"])) (.group e) (mark "(" :: front)
  | call {as arguments front} (name : String) (h : EndsObject .arguments as arguments front) :
      EndsObject .primary (word name :: as) (.call name arguments) (word name :: front)
  | argument {ts us first more front} (h : EndsObject .expression ts first front)
      (hm : Derives .moreArguments us more) :
      EndsObject .arguments (mark "(" :: (ts ++ (us ++ [mark ")"]))) (first :: more)
        (mark "(" :: front)
  | furtherArgument {ts us first more front} (hf : Derives .expression ts first)
      (h : EndsObject .moreArguments us more front) :
      EndsObject .arguments (mark "(" :: (ts ++ (us ++ [mark ")"]))) (first :: more)
        (mark "(" :: (ts ++ front))
  | nextArgument {ts us first more front} (h : EndsObject .expression ts first front)
      (hm : Derives .moreArguments us more) :
      EndsObject .moreArguments (mark "," :: (ts ++ us)) (first :: more) (mark "," :: front)
  | laterArgument {ts us first more front} (hf : Derives .expression ts first)
      (h : EndsObject .moreArguments us more front) :
      EndsObject .moreArguments (mark "," :: (ts ++ us)) (first :: more) (mark "," :: (ts ++ front))
  | receiver {ts us receiver items front} (h : EndsObject .primary ts receiver front)
      (hi : Derives .suffixes us items) :
      EndsObject (.operand none) (ts ++ us) (applySuffixes receiver items) front
  | suffixes {ts us receiver items front} (hp : Derives .primary ts receiver)
      (h : EndsObject .suffixes us items front) :
      EndsObject (.operand none) (ts ++ us) (applySuffixes receiver items) (ts ++ front)
  | afterProperty {us items front} (name : String) (h : EndsObject .suffixes us items front) :
      EndsObject .suffixes (mark "." :: word name :: us) ((name, none) :: items)
        (mark "." :: word name :: front)
  | methodArgument {as us arguments items front} (name : String)
      (h : EndsObject .arguments as arguments front) (hi : Derives .suffixes us items) :
      EndsObject .suffixes (mark "." :: word name :: (as ++ us)) ((name, some arguments) :: items)
        (mark "." :: word name :: front)
  | afterMethod {as us arguments items front} (name : String) (ha : Derives .arguments as arguments)
      (h : EndsObject .suffixes us items front) :
      EndsObject .suffixes (mark "." :: word name :: (as ++ us)) ((name, some arguments) :: items)
        (mark "." :: word name :: (as ++ front))
  | leftmost {layer : Layer} {ts us first items front}
      (h : EndsObject (.operand layer.tighter) ts first front)
      (hi : Derives (.operands layer) us items) :
      EndsObject (.operand (some layer)) (ts ++ us) (applyOperands first items) front
  | operands {layer : Layer} {ts us first items front}
      (hf : Derives (.operand layer.tighter) ts first)
      (h : EndsObject (.operands layer) us items front) :
      EndsObject (.operand (some layer)) (ts ++ us) (applyOperands first items) (ts ++ front)
  | operand {layer : Layer} {ts us right items front} (symbol : String) (hs : symbol ∈ layer.symbols)
      (h : EndsObject (.operand layer.tighter) ts right front)
      (hi : Derives (.operands layer) us items) :
      EndsObject (.operands layer) (operatorToken layer symbol :: (ts ++ us))
        ((Operator.ofSymbol symbol, right) :: items) (operatorToken layer symbol :: front)
  | laterOperand {layer : Layer} {ts us right items front} (symbol : String)
      (hs : symbol ∈ layer.symbols) (hr : Derives (.operand layer.tighter) ts right)
      (h : EndsObject (.operands layer) us items front) :
      EndsObject (.operands layer) (operatorToken layer symbol :: (ts ++ us))
        ((Operator.ofSymbol symbol, right) :: items) (operatorToken layer symbol :: (ts ++ front))
  | value {ts e front} (h : EndsObject .expression ts e front) :
      EndsObject .optional ts (some e) front
  | letValue {ts value front} (name : String) (h : EndsObject .expression ts value front) :
      EndsObject .declaration (word "LET" :: word name :: mark "=" :: (ts ++ [mark ";"]))
        { name, value := some value } (word "LET" :: word name :: mark "=" :: front)
  | declare {ts d front} (h : EndsObject .declaration ts d front) :
      EndsObject .statement ts (.declare d) front
  | condition {cs ts condition body front} (h : EndsObject .expression cs condition front)
      (ht : Derives .statements ts body) :
      EndsObject .statement (word "IF" :: (cs ++ word "DO" :: (ts ++ [word "END"])))
        (.branch condition body []) (word "IF" :: front)
  | conditionElse {cs ts es condition thenBody elseBody front}
      (h : EndsObject .expression cs condition front) (ht : Derives .statements ts thenBody)
      (he : Derives .statements es elseBody) :
      EndsObject .statement
        (word "IF" :: (cs ++ word "DO" :: (ts ++ word "ELSE" :: (es ++ [word "END"]))))
        (.branch condition thenBody elseBody) (word "IF" :: front)
  | iterable {is ts iterable body front} (name : String) (h : EndsObject .expression is iterable front)
      (hb : Derives .statements ts body) :
      EndsObject .statement
        (word "FOR" :: word name :: word "IN" :: (is ++ word "DO" :: (ts ++ [word "END"])))
        (.loop name iterable body) (word "FOR" :: word name :: word "IN" :: front)
  | returned {vs value front} (h : EndsObject .optional vs value front) :
      EndsObject .statement (word "RETURN" :: (vs ++ [mark ";"])) (.ret value) (word "RETURN" :: front)
  | returnedIf {vs cs value condition front} (h : EndsObject .optional vs value front)
      (hc : Derives .expression cs condition) :
      EndsObject .statement (word "RETURN" :: (vs ++ word "IF" :: (cs ++ [mark ";"])))
        (.branch condition [.ret value] []) (word "RETURN" :: front)
  | returnCondition {vs cs value condition front} (hv : Derives .optional vs value)
      (h : EndsObject .expression cs condition front) :
      EndsObject .statement (word "RETURN" :: (vs ++ word "IF" :: (cs ++ [mark ";"])))
        (.branch condition [.ret value] []) (word "RETURN" :: (vs ++ word "IF" :: front))
  | perform {ts e front} (h : EndsObject .expression ts e front) :
      EndsObject .statement (ts ++ [mark ";"]) (.perform e) front
  | target {ts vs target value front} (h : EndsObject .expression ts target front)
      (ha : target.isTarget = true) (hv : Derives .expression vs value) :
      EndsObject .statement (ts ++ mark "=" :: (vs ++ [mark ";"])) (.assign target value) front
  | assigned {ts vs target value front} (ht : Derives .expression ts target)
      (ha : target.isTarget = true) (h : EndsObject .expression vs value front) :
      EndsObject .statement (ts ++ mark "=" :: (vs ++ [mark ";"])) (.assign target value)
        (ts ++ mark "=" :: front)

section Ends
variable {symbol : Symbol} {ts front : List Token} {tree : symbol.Tree}

/-- The test takes what ends with an object outside of all blocks for a complete unit. -/
theorem EndsObject.concluded (h : EndsObject symbol ts tree front)
    (hn : ∀ name ∈ symbol.names tree, IsFree name) : Concluded front := by
  -- Along a rule the test steps over the tokens and over the phrases in front, which leave no block open.
  induction h <;> simp only [List.forall_mem_append, List.forall_mem_cons, Symbol.names, namesOfStmts,
    Stmt.names, Declaration.names, namesOfOption, names_applyOperands, names_applySuffixes,
    List.flatMap_cons, suffixNames, namesOfExprs, Expr.names] at hn
  case object hm =>
    have hbody := hm.balanced (forall_mem_memberNames hn.2.1 hn.2.2)
    exact ((concluded_block hbody).append (balanced_objectName hn.1).settled).cons (by decide)
  case group ih => exact (ih hn).cons (neutral_mark "(")
  case call ih => exact (ih hn.2).cons (neutral_word hn.1)
  case argument ih => exact (ih hn.1).cons (neutral_mark "(")
  case furtherArgument hf _ ih => exact ((ih hn.2).append (hf.balanced hn.1).settled).cons (neutral_mark "(")
  case nextArgument ih => exact (ih hn.1).cons (neutral_mark ",")
  case laterArgument hf _ ih => exact ((ih hn.2).append (hf.balanced hn.1).settled).cons (neutral_mark ",")
  case receiver ih => exact ih hn.1
  case suffixes hp _ ih => exact (ih hn.2).append (hp.balanced hn.1).settled
  case afterProperty ih => exact ((ih hn.2).cons (neutral_word hn.1.1)).cons (neutral_mark ".")
  case methodArgument ih => exact ((ih hn.1.2).cons (neutral_word hn.1.1)).cons (neutral_mark ".")
  case afterMethod ha _ ih =>
    exact (((ih hn.2).append (ha.balanced hn.1.2).settled).cons (neutral_word hn.1.1)).cons (neutral_mark ".")
  case leftmost ih => exact ih hn.1
  case operands hf _ ih => exact (ih hn.2).append (hf.balanced hn.1).settled
  case operand hs _ _ ih => exact (ih hn.1).cons (neutral_operatorToken hs)
  case laterOperand hs hr _ ih =>
    exact ((ih hn.2).append (hr.balanced hn.1).settled).cons (neutral_operatorToken hs)
  case value ih => exact ih hn
  case letValue ih => exact (((ih hn.2).cons (neutral_mark "=")).cons (neutral_word hn.1)).cons (by decide)
  case declare ih => exact ih hn
  case condition ih => exact (ih hn.1).cons (by decide)
  case conditionElse ih => exact (ih hn.1).cons (by decide)
  case iterable ih =>
    exact (((ih hn.2.1).cons (by decide)).cons (neutral_word hn.1)).cons (by decide)
  case returned ih => exact (ih hn).cons (by decide)
  case returnedIf ih => exact (ih hn.2.1.1).cons (by decide)
  case returnCondition hv _ ih =>
    exact (((ih hn.1).cons (by decide)).append (hv.balanced hn.2.1.1).settled).cons (by decide)
  case perform ih => exact ih hn
  case target ih => exact ih hn.1
  case assigned ht _ _ ih =>
    exact ((ih hn.2).cons (neutral_mark "=")).append (ht.balanced hn.1).settled

/-- A token that ends neither a statement nor a block, by its text. -/
def Inner (token : Token) : Prop :=
  token.literal ≠ ";" ∧ token.literal ≠ "END"

instance (token : Token) : Decidable (Inner token) :=
  inferInstanceAs (Decidable (_ ∧ _))

theorem inner_of_shaped {token : Token} (h : token.Shaped) (hk : token ≠ mark ";") (hn : Neutral token) :
    Inner token := by
  have hmark : Terminal (mark ";") := by decide
  have hend : Terminal (word "END") := by decide
  exact ⟨fun hl => hk (hmark.eq h hl), fun hl => hn.2 (hend.eq h hl)⟩

theorem inner_word {name : String} (h : (word name).Shaped) (hn : IsFree name) : Inner (word name) :=
  inner_of_shaped h (by simp [word, mark]) (neutral_word hn)

theorem Denotes.inner {token : Token} {value : Literal} (h : Denotes token value) (ht : token.Shaped) :
    Inner token := by
  refine inner_of_shaped ht ?_ h.neutral
  rintro rfl
  cases h with
  | number hk _ => rcases hk with hk | hk <;> cases hk

theorem inner_operatorToken {layer : Layer} {text : String} (h : text ∈ layer.symbols) :
    Inner (operatorToken layer text) := by
  have hinner : ∀ text ∈ layer.symbols, Inner (operatorToken layer text) := by cases layer <;> decide
  exact hinner text h

theorem inner_parameters {names : List String} (hs : ∀ token ∈ parameters names, token.Shaped)
    (hn : ∀ name ∈ names, IsFree name) : ∀ token ∈ parameters names, Inner token := by
  have hmarks : ∀ text ∈ ["(", ",", ")"], Inner (mark text) := by decide
  have hinner : ∀ token ∈ parameters names, token.Shaped → Inner token :=
    forall_mem_parameters (fun text h _ => hmarks text h) fun name h hs => inner_word hs (hn name h)
  exact fun token h => hinner token h (hs token h)

theorem inner_objectName {name : Option String} (hs : ∀ token ∈ objectName name, token.Shaped)
    (hn : ∀ text ∈ name.toList, IsFree text) : ∀ token ∈ objectName name, Inner token :=
  List.forall_mem_map.mpr fun text h => inner_word (List.forall_mem_map.mp hs text h) (hn text h)

/-- Wherever the test takes a cut through the tokens for the end of a unit, the part in front has
property `P`. -/
def StopsOnly (ts : List Token) (P : List Token → Prop) : Prop :=
  ∀ front, front <+: ts → Concluded front → P front

namespace StopsOnly
variable {token : Token} {us : List Token} {P Q : List Token → Prop}

theorem mono (h : StopsOnly ts P) (hm : ∀ front, P front → Q front) : StopsOnly ts Q :=
  fun front hp hc => hm front (h front hp hc)

/-- Nothing ends with a token inside. -/
theorem never (h : ∀ token ∈ ts, Inner token) : StopsOnly ts P := by
  intro front hp hc
  obtain ⟨-, last, hlast, hliteral⟩ := concluded_iff.mp hc
  obtain ⟨hsemicolon, hend⟩ := h last (hp.subset (List.mem_of_getLast? hlast))
  exact absurd hliteral (not_or.mpr ⟨hsemicolon, hend⟩)

theorem append (hb : Balanced ts) (h : StopsOnly ts P) (h' : StopsOnly us fun more => P (ts ++ more)) :
    StopsOnly (ts ++ us) P := by
  intro front hp hc
  rcases prefix_append_split hp with hp | ⟨more, hne, hm, rfl⟩
  · exact h front hp hc
  · exact h' more hm ((concluded_append_iff hb.settled hne).mp hc)

theorem cons (ht : Neutral token) (hi : Inner token) (h : StopsOnly ts fun more => P (token :: more)) :
    StopsOnly (token :: ts) P :=
  append (.single ht) (never (List.forall_mem_singleton.mpr hi)) h

theorem last (h : P [token]) : StopsOnly [token] P := by
  intro front hp hc
  rcases List.prefix_cons_iff.mp hp with hfront | ⟨part, hfront, hpart⟩
  · exact absurd hfront hc.1
  · rw [hfront, List.prefix_nil.mp hpart]
    exact h

/-- A block stops the test at its end at the earliest. -/
theorem block (hb : Balanced ts) (h : P (word "DO" :: (ts ++ [word "END"]))) :
    StopsOnly (word "DO" :: (ts ++ [word "END"])) P := by
  intro front hp hc
  rcases prefix_block_cases hp with hfront | ⟨part, hpart, rfl⟩ | rfl
  · exact absurd hfront hc.1
  · have hopen := hb.pos_of_prefix hpart
    have hclosed := (concluded_iff.mp hc).1
    omega
  · exact h

end StopsOnly

/-- Where the test may stop in a phrase: behind an object outside of all blocks, and behind the whole of a
statement. Of phrases that are always in a block nothing is said. -/
def Symbol.Stop : (symbol : Symbol) → List Token → symbol.Tree → (front : List Token) → Prop
  | .statements, _, _, _ => True
  | .members, _, _, _ => True
  | .statement, ts, s, front => front = ts ∨ EndsObject .statement ts s front
  | .declaration, ts, d, front => front = ts ∨ EndsObject .declaration ts d front
  | .definition, ts, _, front => front = ts
  | symbol, ts, tree, front => EndsObject symbol ts tree front

/-- The test stops in a phrase of the grammar only where it may. -/
theorem Derives.stopsOnly (h : Derives symbol ts tree) (hts : ∀ token ∈ ts, token.Shaped)
    (hn : ∀ name ∈ symbol.names tree, IsFree name) : StopsOnly ts (symbol.Stop ts tree) := by
  -- A cut is behind a token of the rule or in one of its parts, where the part decides. What stands in front
  -- of the part leaves no block open and has no say.
  induction h <;> simp only [List.forall_mem_append, List.forall_mem_cons, Symbol.names, namesOfStmts,
    Stmt.names, Declaration.names, Definition.names, namesOfOption, names_applyOperands,
    names_applySuffixes, List.flatMap_cons, suffixNames, namesOfExprs, Expr.names, memberNames] at hts hn
  case noStatement => exact fun _ _ _ => trivial
  case statements => exact fun _ _ _ => trivial
  case declare ih => exact (ih hts hn).mono fun _ h => h.imp_right .declare
  case define ih => exact (ih hts hn).mono fun _ h => .inl h
  case branch hc ht ihc _ =>
    obtain ⟨-, hcs, -⟩ := hts
    exact .cons (by decide) (by decide) (.append (hc.balanced hn.1)
      ((ihc hcs hn.1).mono fun _ h => .inr (.condition h ht))
      (.block (ht.balanced hn.2.1) (.inl rfl)))
  case branchElse hc ht he ihc _ _ =>
    obtain ⟨-, hcs, -⟩ := hts
    refine .cons (by decide) (by decide) (.append (hc.balanced hn.1)
      ((ihc hcs hn.1).mono fun _ h => .inr (.conditionElse h ht he)) ?_)
    have hblock := StopsOnly.block (balanced_else (ht.balanced hn.2.1) (he.balanced hn.2.2)) rfl
    rw [List.append_assoc, List.cons_append] at hblock
    exact hblock.mono fun _ h => .inl (by rw [h])
  case loop name hi hb ihi _ =>
    obtain ⟨-, hname, -, his, -⟩ := hts
    exact .cons (by decide) (by decide) (.cons (neutral_word hn.1) (inner_word hname hn.1)
      (.cons (by decide) (by decide) (.append (hi.balanced hn.2.1)
        ((ihi his hn.2.1).mono fun _ h => .inr (.iterable name h hb))
        (.block (hb.balanced hn.2.2) (.inl rfl)))))
  case ret hv ih =>
    exact .cons (by decide) (by decide) (.append (hv.balanced hn)
      ((ih hts.2.1 hn).mono fun _ h => .inr (.returned h)) (.last (.inl rfl)))
  case retIf hv hc ihv ihc =>
    obtain ⟨-, hvs, -, hcs, -⟩ := hts
    exact .cons (by decide) (by decide) (.append (hv.balanced hn.2.1.1)
      ((ihv hvs hn.2.1.1).mono fun _ h => .inr (.returnedIf h hc))
      (.cons (by decide) (by decide) (.append (hc.balanced hn.1)
        ((ihc hcs hn.1).mono fun _ h => .inr (.returnCondition hv h)) (.last (.inl rfl)))))
  case perform he ih =>
    exact .append (he.balanced hn) ((ih hts.1 hn).mono fun _ h => .inr (.perform h)) (.last (.inl rfl))
  case assign ht ha hv iht ihv =>
    exact .append (ht.balanced hn.1) ((iht hts.1 hn.1).mono fun _ h => .inr (.target h ha hv))
      (.cons (by decide) (by decide) (.append (hv.balanced hn.2)
        ((ihv hts.2.2.1 hn.2).mono fun _ h => .inr (.assigned ht ha h)) (.last (.inl rfl))))
  case letBare =>
    obtain ⟨-, hname, -⟩ := hts
    exact .cons (by decide) (by decide) (.cons (neutral_word hn.1) (inner_word hname hn.1)
      (.last (.inl rfl)))
  case letValue name hv ih =>
    obtain ⟨-, hname, -, hvs, -⟩ := hts
    exact .cons (by decide) (by decide) (.cons (neutral_word hn.1) (inner_word hname hn.1)
      (.cons (by decide) (by decide) (.append (hv.balanced hn.2)
        ((ih hvs hn.2).mono fun _ h => .inr (.letValue name h)) (.last (.inl rfl)))))
  case definition name names hb _ =>
    obtain ⟨-, hname, hps, -⟩ := hts
    exact .cons (by decide) (by decide) (.cons (neutral_word hn.1) (inner_word hname hn.1)
      (.append (balanced_parameters hn.2.1) (.never (inner_parameters hps hn.2.1))
        (.block (hb.balanced hn.2.2) rfl)))
  case noValue => exact .never (by simp)
  case value ih => exact (ih hts hn).mono fun _ h => .value h
  case chain hf hi ihf ihi =>
    exact .append (hf.balanced hn.1) ((ihf hts.1 hn.1).mono fun _ h => .leftmost h hi)
      ((ihi hts.2 hn.2).mono fun _ h => .operands hf h)
  case noOperand => exact .never (by simp)
  case operands text hs hr hi ihr ihi =>
    obtain ⟨-, hrs, his⟩ := hts
    exact .cons (neutral_operatorToken hs) (inner_operatorToken hs) (.append (hr.balanced hn.1)
      ((ihr hrs hn.1).mono fun _ h => .operand text hs h hi)
      ((ihi his hn.2).mono fun _ h => .laterOperand text hs hr h))
  case secondary hp hi ihp ihi =>
    exact .append (hp.balanced hn.1) ((ihp hts.1 hn.1).mono fun _ h => .receiver h hi)
      ((ihi hts.2 hn.2).mono fun _ h => .suffixes hp h)
  case noSuffix => exact .never (by simp)
  case property name _ ih =>
    obtain ⟨-, hname, hus⟩ := hts
    exact .cons (by decide) (by decide) (.cons (neutral_word hn.1.1) (inner_word hname hn.1.1)
      ((ih hus hn.2).mono fun _ h => .afterProperty name h))
  case method name ha hi iha ihi =>
    obtain ⟨-, hname, has, hus⟩ := hts
    exact .cons (by decide) (by decide) (.cons (neutral_word hn.1.1) (inner_word hname hn.1.1)
      (.append (ha.balanced hn.1.2) ((iha has hn.1.2).mono fun _ h => .methodArgument name h hi)
        ((ihi hus hn.2).mono fun _ h => .afterMethod name ha h)))
  case noArgument => exact .never (by decide)
  case arguments hf hm ihf ihm =>
    obtain ⟨-, hfs, hms, -⟩ := hts
    exact .cons (by decide) (by decide) (.append (hf.balanced hn.1)
      ((ihf hfs hn.1).mono fun _ h => .argument h hm) (.append (hm.balanced hn.2)
        ((ihm hms hn.2).mono fun _ h => .furtherArgument hf h) (.never (by decide))))
  case noMoreArgument => exact .never (by simp)
  case moreArguments hf hm ihf ihm =>
    obtain ⟨-, hfs, hms⟩ := hts
    exact .cons (by decide) (by decide) (.append (hf.balanced hn.1)
      ((ihf hfs hn.1).mono fun _ h => .nextArgument h hm)
      ((ihm hms hn.2).mono fun _ h => .laterArgument hf h))
  case literal hd => exact .never (List.forall_mem_singleton.mpr (hd.inner hts.1))
  case group he ih =>
    exact .cons (by decide) (by decide) (.append (he.balanced hn)
      ((ih hts.2.1 hn).mono fun _ h => .group h) (.never (by decide)))
  case object name hm _ =>
    obtain ⟨-, hname, -⟩ := hts
    have hbody := hm.balanced (forall_mem_memberNames hn.2.1 hn.2.2)
    exact .cons (by decide) (by decide) (.append (balanced_objectName hn.1)
      (.never (inner_objectName hname hn.1)) (.block hbody (.object name hm)))
  case call name _ ih =>
    exact .cons (neutral_word hn.1) (inner_word hts.1 hn.1)
      ((ih hts.2 hn.2).mono fun _ h => .call name h)
  case name => exact .never (List.forall_mem_singleton.mpr (inner_word hts.1 hn.1))
  case noMember => exact fun _ _ _ => trivial
  case field => exact fun _ _ _ => trivial
  case ownMethod => exact fun _ _ _ => trivial

/-- Whether phrases of a symbol are statements, or may stand in their place. -/
def Symbol.isUnit : Symbol → Bool
  | .statement | .statements | .declaration | .definition => true
  | _ => false

theorem Derives.getLast? (h : Derives symbol ts tree) (hu : symbol.isUnit = true) (hne : ts ≠ []) :
    ∃ last, ts.getLast? = some last ∧ (last.literal = ";" ∨ last.literal = "END") := by
  induction h <;> try cases hu
  case noStatement => exact absurd rfl hne
  case statements ts us _ _ _ _ ihf ihr =>
    by_cases hus : us = []
    · rw [hus, List.append_nil] at hne ⊢
      exact ihf rfl hne
    · obtain ⟨last, hlast, hliteral⟩ := ihr rfl hus
      exact ⟨last, by rw [List.getLast?_append, hlast, Option.some_or], hliteral⟩
  case declare ih => exact ih rfl hne
  case define ih => exact ih rfl hne
  case branch | branchElse | loop | definition => exact ⟨word "END", by simp [List.getLast?_cons], .inr rfl⟩
  case ret | retIf | perform | assign | letBare | letValue =>
    exact ⟨mark ";", by simp [List.getLast?_cons], .inl rfl⟩

/-- The test takes whole statements for a complete unit. -/
theorem Derives.isComplete (h : Derives symbol ts tree) (hu : symbol.isUnit = true)
    (hn : ∀ name ∈ symbol.names tree, IsFree name) : isComplete ts = true := by
  by_cases hne : ts = []
  · rw [hne]
    rfl
  · exact (concluded_iff.mpr ⟨Int.le_of_eq (h.balanced hn).settled, h.getLast? hu hne⟩).2

end Ends

/-- Of a statement, the test stops at all objects outside of blocks, and before the end nowhere else. -/
theorem Derives.isComplete_front_iff {ts front : List Token} {s : Stmt} (h : Derives .statement ts s)
    (hts : ∀ token ∈ ts, token.Shaped) (hn : ∀ name ∈ s.names, IsFree name) (hp : front <+: ts)
    (hempty : front ≠ []) (hwhole : front ≠ ts) :
    ProtoScript.isComplete front = true ↔ EndsObject .statement ts s front := by
  constructor
  · intro hc
    exact (h.stopsOnly hts hn front hp ⟨hempty, hc⟩).resolve_left hwhole
  · intro he
    exact (he.concluded hn).2

end ProtoScript.Grammar

namespace ProtoScript
open Grammar Token

theorem isUnfinished_of_lex {text : String} (h : (lex text).error = none) :
    isUnfinished text = !isComplete (lex text).tokens := by
  rw [isUnfinished, h]
  rfl

theorem isFree_of_not_mem {names : List String} (hd : "DO" ∉ names) (he : "END" ∉ names) :
    ∀ name ∈ names, IsFree name :=
  fun _ hname => ⟨ne_of_mem_of_not_mem hname hd, ne_of_mem_of_not_mem hname he⟩

/-- The completeness test fits the grammar, where neither word around a block is used as a name. No program
is unfinished. Of a single statement every part in front, but for the empty and the whole one, is
unfinished, unless it ends with an object outside of all blocks. This goes for every text of its tokens,
and there is one. -/
theorem completeness_fits_grammar :
    (∀ source program, parseUnit source = .ok program → "DO" ∉ program.names → "END" ∉ program.names →
      isUnfinished source = false) ∧
    ∀ (ts : List Token) (s : Stmt), (∀ token ∈ ts, token.Emitted) →
      Parser.parse .statement ts = .ok (.stmt s) → "DO" ∉ s.names → "END" ∉ s.names →
      ∀ front, front <+: ts → front ≠ [] → front ≠ ts →
        (∃ text, (lex text).error = none ∧ (lex text).tokens = front) ∧
        ∀ text, (lex text).error = none → (lex text).tokens = front →
          (isUnfinished text = true ↔ ¬EndsObject .statement ts s front) := by
  constructor
  · intro source program h hd he
    obtain ⟨herror, hparse⟩ := parseUnit_iff.mp h
    have hspells := spells_of_parse (fun token ht => Emitted.shaped ⟨source, ht⟩) hparse
    cases program with
    | source body =>
        have hderives : Derives .statements (lex source).tokens body := hspells
        rw [isUnfinished_of_lex herror, hderives.isComplete rfl (isFree_of_not_mem hd he)]
        rfl
    | stmt s => exact hspells.elim
    | expr e => exact hspells.elim
  · intro ts s hts hparse hd he front hp hempty hwhole
    have hshaped : ∀ token ∈ ts, token.Shaped := fun token ht => (hts token ht).shaped
    have hderives : Derives .statement ts s := spells_of_parse hshaped hparse
    have hspelled : ∀ token ∈ front, token.WellSpelled :=
      fun token ht => (hts token (hp.subset ht)).wellSpelled
    refine ⟨⟨_, lex_spaced hspelled⟩, ?_⟩
    rintro text herror rfl
    rw [isUnfinished_of_lex herror, Bool.not_eq_true', ← Bool.not_eq_true,
      hderives.isComplete_front_iff hshaped (isFree_of_not_mem hd he) hp hempty hwhole]

/-- An object in an argument ends what passes for a unit, and one in a body does not. -/
theorem completeness_fits_grammar_nested :
    let source := "IF f(OBJECT DO END) DO OBJECT P DO LET y; END; END"
    let argument := [word "IF", word "f", mark "(", word "OBJECT", word "DO", word "END"]
    let body := [mark ")", word "DO", word "OBJECT", word "P", word "DO", word "LET", word "y", mark ";",
      word "END"]
    let ts := argument ++ body ++ [mark ";", word "END"]
    let s : Stmt := .branch (.call "f" [.object none [] []])
      [.perform (.object (some "P") [⟨"y", none⟩] [])] []
    parseUnit source = .ok (.source [s]) ∧ isUnfinished source = false ∧
      EndsObject .statement ts s argument ∧ ¬EndsObject .statement ts s (argument ++ body) := by
  have hunit : parseUnit "IF f(OBJECT DO END) DO OBJECT P DO LET y; END; END" =
      .ok (.source [.branch (.call "f" [.object none [] []])
        [.perform (.object (some "P") [⟨"y", none⟩] [])] []]) := by rfl
  have hts : (lex "IF f(OBJECT DO END) DO OBJECT P DO LET y; END; END").tokens =
      [word "IF", word "f", mark "(", word "OBJECT", word "DO", word "END", mark ")", word "DO",
        word "OBJECT", word "P", word "DO", word "LET", word "y", mark ";", word "END", mark ";",
        word "END"] := by rfl
  intro source argument body ts s
  have hcut := completeness_fits_grammar.2 ts s (fun token h => ⟨source, hts ▸ h⟩) rfl
    (by decide) (by decide)
  refine ⟨hunit, completeness_fits_grammar.1 source _ hunit (by decide) (by decide), ?_, ?_⟩
  · have hiff := (hcut argument (by decide) (by decide) (by decide)).2 "IF f(OBJECT DO END" (by decide)
      (by decide)
    exact Classical.not_not.mp (mt hiff.mpr (by decide))
  · have hiff := (hcut (argument ++ body) (by decide) (by decide) (by decide)).2
      "IF f(OBJECT DO END) DO OBJECT P DO LET y; END" (by decide) (by decide)
    exact hiff.mp (by decide)

end ProtoScript
