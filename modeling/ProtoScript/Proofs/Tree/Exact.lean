import ProtoScript.Proofs.Tree.Complete

/-!
# The parser accepts exactly its grammar

A derivation is parsed rule by rule, if no name in its tree is a keyword. Together with the converse,
the trees that the parser builds are the derivable ones.
-/

namespace ProtoScript.Grammar
open ProtoScript.Parser

@[simp] theorem keywordFree_cons {name : String} {names : List String} :
    KeywordFree (name :: names) ↔ name ∉ keywords ∧ KeywordFree names := by
  simp [KeywordFree]

@[simp] theorem keywordFree_append {names more : List String} :
    KeywordFree (names ++ more) ↔ KeywordFree names ∧ KeywordFree more := by
  simp only [KeywordFree, List.mem_append]
  exact ⟨fun h => ⟨fun n hn => h n (.inl hn), fun n hn => h n (.inr hn)⟩,
    fun h n hn => hn.elim (h.1 n) (h.2 n)⟩

/-- The names in a suffix. -/
def suffixNames : String × Option (List Expr) → List String
  | (name, none) => [name]
  | (name, some arguments) => name :: namesOfExprs arguments

/-- The names in a member of an object. -/
def memberNames : Declaration ⊕ Definition → List String
  | .inl d => d.names
  | .inr d => d.names

/-- The names in a tree of a symbol. -/
def Symbol.names : (symbol : Symbol) → symbol.Tree → List String
  | .statement, s => s.names
  | .statements, body => namesOfStmts body
  | .declaration, d => d.names
  | .definition, d => d.names
  | .optional, value => namesOfOption value
  | .operand _, e => e.names
  | .operands _, items => items.flatMap fun item => item.2.names
  | .primary, e => e.names
  | .suffixes, items => items.flatMap suffixNames
  | .arguments, es => namesOfExprs es
  | .moreArguments, es => namesOfExprs es
  | .members, items => items.flatMap memberNames

theorem names_applyOperands (left : Expr) (items : List (Operator × Expr)) :
    (applyOperands left items).names = left.names ++ items.flatMap fun item => item.2.names := by
  induction items generalizing left with
  | nil => simp [applyOperands]
  | cons item items ih =>
      have := ih (.binary item.1 left item.2)
      simpa [applyOperands, Expr.names] using this

theorem names_applySuffixes (receiver : Expr) (items : List (String × Option (List Expr))) :
    (applySuffixes receiver items).names = receiver.names ++ items.flatMap suffixNames := by
  induction items generalizing receiver with
  | nil => simp [applySuffixes]
  | cons item items ih =>
      have := ih (applySuffix receiver item)
      rcases item with ⟨name, _ | arguments⟩ <;>
        simpa [applySuffixes, applySuffix, Expr.names, suffixNames] using this

/-- What holds of the names in an object's fields and in its methods holds of the names in its members. -/
theorem forall_mem_memberNames {P : String → Prop} {items : List (Declaration ⊕ Definition)}
    (hf : ∀ name ∈ namesOfDeclarations (fieldsOf items), P name)
    (hm : ∀ name ∈ namesOfDefinitions (methodsOf items), P name) :
    ∀ name ∈ items.flatMap memberNames, P name := by
  induction items with
  | nil => simp
  | cons item items ih =>
      rw [List.flatMap_cons, List.forall_mem_append]
      rcases item with d | d
      · rw [fieldsOf_inl, namesOfDeclarations, List.forall_mem_append] at hf
        exact ⟨hf.1, ih hf.2 hm⟩
      · rw [methodsOf_inr, namesOfDefinitions, List.forall_mem_append] at hm
        exact ⟨hm.1, ih hf hm.2⟩

/-- The parser follows every derivation of a tree whose names are no keywords. -/
theorem Derives.parses {symbol : Symbol} {ts : List Token} {tree : symbol.Tree}
    (h : Derives symbol ts tree) (hts : ∀ token ∈ ts, token.Shaped)
    (hn : KeywordFree (symbol.names tree)) : Parses symbol ts tree := by
  -- A rule's tokens and names are those of its parts, so both conditions come apart along the rule.
  induction h <;> simp only [List.forall_mem_append, List.forall_mem_cons, Symbol.names, namesOfStmts,
    Stmt.names, Declaration.names, Definition.names, namesOfOption, names_applyOperands,
    names_applySuffixes, List.flatMap_cons, suffixNames, namesOfExprs, Expr.names, memberNames,
    keywordFree_append, keywordFree_cons] at hts hn
  case noStatement => exact .noStatement
  case statements ihf ihr => exact .statements (ihf hts.1 hn.1) (ihr hts.2 hn.2)
  case declare ih => exact .declare (ih hts hn)
  case define ih => exact .define (ih hts hn)
  case branch ihc iht =>
    obtain ⟨-, hcs, -, hbs, -⟩ := hts
    exact .branch (ihc hcs hn.1) (iht hbs hn.2.1)
  case branchElse ihc iht ihe =>
    obtain ⟨-, hcs, -, hbs, -, hes, -⟩ := hts
    exact .branchElse (ihc hcs hn.1) (iht hbs hn.2.1) (ihe hes hn.2.2)
  case loop name _ _ ihi ihb =>
    obtain ⟨-, -, -, his, -, hbs, -⟩ := hts
    exact .loop name (ihi his hn.2.1) (ihb hbs hn.2.2)
  case ret ih => exact .ret (ih hts.2.1 hn)
  case retIf ihv ihc =>
    obtain ⟨-, hvs, -, hcs, -⟩ := hts
    exact .retIf (ihv hvs hn.2.1.1) (ihc hcs hn.1)
  case perform ih => exact .perform (ih hts.1 hn)
  case assign ha _ iht ihv => exact .assign (iht hts.1 hn.1) ha (ihv hts.2.2.1 hn.2)
  case letBare name => exact .letBare name
  case letValue name _ ih => exact .letValue name (ih hts.2.2.2.1 hn.2)
  case definition name names _ ih => exact .definition name names (ih hts.2.2.2.2.1 hn.2.2)
  case noValue => exact .noValue
  case value ih => exact .value (ih hts hn)
  case chain ihf ihi => exact .chain (ihf hts.1 hn.1) (ihi hts.2 hn.2)
  case noOperand layer => exact .noOperand layer
  case operands hs _ _ ihr ihi => exact .operands hs (ihr hts.2.1 hn.1) (ihi hts.2.2 hn.2)
  case secondary ihp ihi => exact .secondary (ihp hts.1 hn.1) (ihi hts.2 hn.2)
  case noSuffix => exact .noSuffix
  case property name _ ih => exact .property name (ih hts.2.2 hn.2)
  case method name _ _ iha ihi =>
    obtain ⟨-, -, has, hus⟩ := hts
    exact .method name (iha has hn.1.2) (ihi hus hn.2)
  case noArgument => exact .noArgument
  case arguments ihf ihm => exact .arguments (ihf hts.2.1 hn.1) (ihm hts.2.2.1 hn.2)
  case noMoreArgument => exact .noMoreArgument
  case moreArguments ihf ihm => exact .moreArguments (ihf hts.2.1 hn.1) (ihm hts.2.2 hn.2)
  case literal hd => exact .literal hd hts.1
  case group ih => exact .group (ih hts.2.1 hn)
  case object name _ ih =>
    obtain ⟨-, -, -, hms, -⟩ := hts
    exact .object name hn.1 (ih hms (forall_mem_memberNames hn.2.1 hn.2.2))
  case call ih => exact .call hn.1 hts.1 (ih hts.2 hn.2)
  case name => exact .name hn.1 hts.1
  case noMember => exact .noMember
  case field ihd ihi => exact .field (ihd hts.1 hn.1) (ihi hts.2 hn.2)
  case ownMethod ihd ihi => exact .ownMethod (ihd hts.1 hn.1) (ihi hts.2 hn.2)

/-- What the grammar spells with names that are no keywords is parsed, and to that tree. -/
theorem parse_of_spells {rule : Rule} {ts : List Token} {tree : Node}
    (hts : ∀ token ∈ ts, token.Shaped) (hn : KeywordFree tree.names) (h : Spells rule ts tree) :
    parse rule ts = .ok tree := by
  refine (parse_eq_ok_iff rule ts tree).mpr ?_
  cases rule <;> cases tree <;> try exact h.elim
  case source.source statements =>
    have hd : Derives .statements ts statements := h
    exact Runs.map ((hd.parses hts hn).2 (roomFor ts) (by unfold roomFor; omega))
  case statement.stmt statement =>
    have hd : Derives .statement ts statement := h
    have hp := (hd.parses hts hn).2 (roomFor ts) [] (by unfold roomFor; omega)
    rw [List.append_nil] at hp
    exact Runs.map hp
  case expression.expr expression =>
    have hd : Derives .expression ts expression := h
    have hdepth := depth_bounds (some .logical)
    have hp : Runs (parseExpression (roomFor ts) .logical) (ts ++ []) expression [] :=
      (hd.parses hts hn).2 (roomFor ts) [] (by unfold roomFor; omega) (ends_nil _)
    rw [List.append_nil] at hp
    exact Runs.map hp

/-- The parser accepts exactly what the grammar spells, and builds the tree that it spells: on tokens
read from sources, for every start rule and every tree whose names are no keywords. -/
theorem parse_eq_ok_iff_spells (rule : Rule) (ts : List Token) (tree : Node)
    (hts : ∀ token ∈ ts, token.Emitted) (hn : KeywordFree tree.names) :
    parse rule ts = .ok tree ↔ Spells rule ts tree := by
  have hshaped : ∀ token ∈ ts, token.Shaped := fun token ht => (hts token ht).shaped
  exact ⟨spells_of_parse hshaped, parse_of_spells hshaped hn⟩

/-- A program with most of the grammar's rules. -/
theorem parse_eq_ok_iff_spells_object :
    let ts := (Token.lex
      "RETURN OBJECT P DO LET x = a.g(1, -2.50) * (b) OR TRUE; DEF m(s) DO s.x = 'c'; END END IF f();").tokens
    let tree := Node.source [.branch (.call "f" [])
      [.ret (some (.object (some "P")
        [⟨"x", some (.binary .or
          (.binary .multiply
            (.method (.name "a") "g" [.literal (.int 1), .literal (.decimal ⟨true, 250, -2⟩)])
            (.group (.name "b")))
          (.literal (.bool true)))⟩]
        [⟨"m", ["s"], [.assign (.property (.name "s") "x") (.literal (.character "c"))]⟩]))] []]
    (∀ token ∈ ts, token.Emitted) ∧ KeywordFree tree.names ∧ Spells .source ts tree := by
  intro ts tree
  have hts : ∀ token ∈ ts, token.Emitted := fun token h => ⟨_, h⟩
  have hn : KeywordFree tree.names := by unfold KeywordFree; decide
  refine ⟨hts, hn, (parse_eq_ok_iff_spells .source ts tree hts hn).mp ?_⟩
  rfl

end ProtoScript.Grammar
