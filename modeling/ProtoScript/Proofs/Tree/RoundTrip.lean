import ProtoScript.Proofs.Tree.Canonical
import ProtoScript.Proofs.Tree.Exact

/-!
# Printing and reading

What the parser builds from a source can be printed, and what can be printed is read back from its print.
-/

namespace ProtoScript.Grammar
open ProtoScript.Parser ProtoScript.Token

/-- What can be printed on a level can be printed on every looser one. -/
theorem printable_mono {inner outer : Option Layer} (hd : depth inner ≤ depth outer) (e : Expr)
    (h : e.printable inner = true) : e.printable outer = true := by
  cases e with
  | binary operator left right =>
      rw [Expr.printable] at h ⊢
      split at h
      · cases h
      simp only [Layer.within, Bool.and_eq_true, decide_eq_true_eq] at h ⊢
      exact ⟨Nat.le_trans h.1 hd, h.2⟩
  | literal | group | name | property | call | method | object => exact h

/-- Whether a suffix can be printed. -/
def suffixPrintable : String × Option (List Expr) → Bool
  | (name, none) => isIdentifier name
  | (name, some arguments) => isIdentifier name && printableExprs arguments

/-- Whether a member of an object can be printed. -/
def memberPrintable : Declaration ⊕ Definition → Bool
  | .inl d => d.printable
  | .inr d => d.printable

/-- Whether a tree of a symbol can be printed. -/
def Symbol.printable : (symbol : Symbol) → symbol.Tree → Bool
  | .statement, s => s.printable
  | .statements, body => printableStmts body
  | .declaration, d => d.printable
  | .definition, d => d.printable
  | .optional, value => printableOption value
  | .operand level, e => e.printable level
  | .operands layer, items =>
      items.all fun item => item.1.layer? = some layer && item.2.printable layer.tighter
  | .primary, e => e.printable none
  | .suffixes, items => items.all suffixPrintable
  | .arguments, es => printableExprs es
  | .moreArguments, es => printableExprs es
  | .members, items => items.all memberPrintable

theorem layer?_ofSymbol {layer : Layer} {symbol : String} (h : symbol ∈ layer.symbols) :
    (Operator.ofSymbol symbol).layer? = some layer := by
  cases layer <;> revert symbol <;> decide

theorem printable_applyOperands {layer : Layer} {left : Expr} {items : List (Operator × Expr)}
    (hl : left.printable (some layer) = true) (hi : (Symbol.operands layer).printable items = true) :
    (applyOperands left items).printable (some layer) = true := by
  induction items generalizing left with
  | nil => exact hl
  | cons item items ih =>
      simp only [Symbol.printable, List.all_cons, Bool.and_eq_true, decide_eq_true_eq] at hi
      refine ih ?_ hi.2
      simp [Expr.printable, hi.1.1, Layer.within, hl, hi.1.2]

theorem printable_applySuffixes {receiver : Expr} {items : List (String × Option (List Expr))}
    (hr : receiver.printable none = true) (hi : items.all suffixPrintable = true) :
    (applySuffixes receiver items).printable none = true := by
  induction items generalizing receiver with
  | nil => exact hr
  | cons item items ih =>
      simp only [List.all_cons, Bool.and_eq_true] at hi
      refine ih ?_ hi.2
      rcases item with ⟨name, _ | arguments⟩ <;>
        simpa [applySuffix, Expr.printable, hr, suffixPrintable] using hi.1

theorem printable_members {items : List (Declaration ⊕ Definition)}
    (h : items.all memberPrintable = true) :
    printableDeclarations (fieldsOf items) = true ∧ printableDefinitions (methodsOf items) = true := by
  induction items with
  | nil => exact ⟨rfl, rfl⟩
  | cons item items ih =>
      simp only [List.all_cons, Bool.and_eq_true] at h
      rcases item with d | d <;>
        simp_all [printableDeclarations, printableDefinitions, memberPrintable]

theorem all_isIdentifier_of_moreParameters {names : List String}
    (h : AllSpelled (moreParameters names)) : names.all isIdentifier = true := by
  induction names with
  | nil => rfl
  | cons name names ih =>
      simp only [moreParameters, allSpelled_cons] at h
      simp [(isIdentifier_iff name).mpr h.2.1, ih h.2.2]

theorem all_isIdentifier_of_parameters {names : List String} (h : AllSpelled (parameters names)) :
    names.all isIdentifier = true := by
  cases names with
  | nil => rfl
  | cons name names =>
      simp only [parameters, allSpelled_cons, allSpelled_append] at h
      simp [(isIdentifier_iff name).mpr h.2.1, all_isIdentifier_of_moreParameters h.2.2.1]

theorem all_isIdentifier_of_objectName {name : Option String} (h : AllSpelled (objectName name)) :
    name.all isIdentifier = true := by
  cases name with
  | none => rfl
  | some name => exact (isIdentifier_iff name).mpr (h _ (by simp [objectName]))

/-- What well spelled tokens spell can be printed. -/
theorem Derives.printable {symbol : Symbol} {ts : List Token} {tree : symbol.Tree}
    (h : Derives symbol ts tree) (hts : AllSpelled ts) : symbol.printable tree = true := by
  -- A rule's tokens are those of its parts, and its tree can be printed if its parts can.
  induction h <;> simp only [allSpelled_append, allSpelled_cons, Symbol.printable, printableStmts,
    Stmt.printable, Declaration.printable, Definition.printable, printableOption, printableExprs,
    Expr.printable, List.all_nil, List.all_cons, suffixPrintable, memberPrintable,
    Bool.and_eq_true] at hts ⊢
  case statements ihf ihr => exact ⟨ihf hts.1, ihr hts.2⟩
  case declare ih => exact ih hts
  case define ih => exact ih hts
  case branch ihc iht => exact ⟨ihc hts.2.1, iht hts.2.2.2.1, trivial⟩
  case branchElse ihc iht ihe => exact ⟨ihc hts.2.1, iht hts.2.2.2.1, ihe hts.2.2.2.2.2.1⟩
  case loop name _ _ ihi ihb =>
    obtain ⟨-, hname, -, his, -, hbs, -⟩ := hts
    exact ⟨(isIdentifier_iff name).mpr hname, ihi his, ihb hbs⟩
  case ret ih => exact ih hts.2.1
  case retIf ihv ihc => exact ⟨ihc hts.2.2.2.1, ⟨ihv hts.2.1, trivial⟩, trivial⟩
  case perform ih => exact ih hts.1
  case assign ha _ iht ihv => exact ⟨ha, iht hts.1, ihv hts.2.2.1⟩
  case letBare name => exact ⟨(isIdentifier_iff name).mpr hts.2.1, trivial⟩
  case letValue name _ ih => exact ⟨(isIdentifier_iff name).mpr hts.2.1, ih hts.2.2.2.1⟩
  case definition name names _ ih =>
    obtain ⟨-, hname, hnames, -, hbs, -⟩ := hts
    exact ⟨(isIdentifier_iff name).mpr hname, all_isIdentifier_of_parameters hnames, ih hbs⟩
  case value ih => exact ih hts
  case chain layer _ _ _ _ _ _ ihf ihi =>
    have hdepth : depth layer.tighter ≤ depth (some layer) := by
      have := depth_tighter layer
      omega
    exact printable_applyOperands (printable_mono hdepth _ (ihf hts.1)) (ihi hts.2)
  case operands hs _ _ ihr ihi =>
    exact ⟨⟨decide_eq_true (layer?_ofSymbol hs), ihr hts.2.1⟩, ihi hts.2.2⟩
  case secondary ihp ihi => exact printable_applySuffixes (ihp hts.1) (ihi hts.2)
  case property name _ ih => exact ⟨(isIdentifier_iff name).mpr hts.2.1, ih hts.2.2⟩
  case method name _ _ iha ihi =>
    exact ⟨⟨(isIdentifier_iff name).mpr hts.2.1, iha hts.2.2.1⟩, ihi hts.2.2.2⟩
  case arguments ihf ihm => exact ⟨ihf hts.2.1, ihm hts.2.2.1⟩
  case moreArguments ihf ihm => exact ⟨ihf hts.2.1, ihm hts.2.2⟩
  case literal hd => exact Literal.expressible_of_denotes hts.1 hd
  case group ih => exact ih hts.2.1
  case object name _ ih =>
    obtain ⟨-, hname, -, hms, -⟩ := hts
    exact ⟨all_isIdentifier_of_objectName hname, printable_members (ih hms)⟩
  case call name _ ih => exact ⟨(isIdentifier_iff name).mpr hts.1, ih hts.2⟩
  case name name => exact (isIdentifier_iff name).mpr hts.1
  case field ihd ihi => exact ⟨ihd hts.1, ihi hts.2⟩
  case ownMethod ihd ihi => exact ⟨ihd hts.1, ihi hts.2⟩

/-- A literal by itself is parsed to its value. -/
theorem parse_of_denotes {token : Token} {value : Literal} (ht : token.Shaped) (h : Denotes token value) :
    parse .expression [token] = .ok (.expr (.literal value)) := by
  refine parse_of_spells (List.forall_mem_singleton.mpr ht) ?_ (Derives.operand _ (.literal h))
  simp [KeywordFree, Node.names, Expr.names]

/-- The source is read without an error, and as the tree. -/
def Yields (rule : Rule) (source : String) (tree : Node) : Prop :=
  (lex source).error = none ∧ parse rule (lex source).tokens = .ok tree

section RoundTrip
variable {rule : Rule} {tree : Node}

/-- What is read from a source can be printed. -/
theorem Yields.printable {source : String} (h : Yields rule source tree) :
    tree.printable rule = true := by
  have hts : AllSpelled (lex source).tokens := (cuts_of_lex h.1).wellSpelled
  have hshaped : ∀ token ∈ (lex source).tokens, token.Shaped := fun token ht =>
    Emitted.shaped ⟨source, ht⟩
  have hspells := spells_of_parse hshaped h.2
  cases rule <;> cases tree <;> try exact hspells.elim
  case source.source => exact Derives.printable hspells hts
  case statement.stmt => exact Derives.printable hspells hts
  case expression.expr => exact Derives.printable hspells hts

theorem spells_tokens (h : tree.printable rule = true) :
    Spells rule tree.tokens tree ∧ AllSpelled tree.tokens := by
  cases rule <;> cases tree <;> try cases h
  case source.source statements =>
    obtain ⟨hd, hs⟩ := canonical_statements statements h
    exact ⟨hd, hs⟩
  case statement.stmt statement =>
    obtain ⟨hd, hs⟩ := statement.canonical h
    exact ⟨hd, hs⟩
  case expression.expr expression =>
    obtain ⟨hd, hs⟩ := expression.canonical (some .logical) h
    exact ⟨hd, hs⟩

/-- A tree that can be printed is read back from what is printed. -/
theorem yields_print (h : tree.printable rule = true) (hn : KeywordFree tree.names) :
    Yields rule tree.print tree := by
  obtain ⟨hspells, hts⟩ := spells_tokens h
  obtain ⟨herror, htokens⟩ := lex_spaced hts
  have hshaped : ∀ token ∈ tree.tokens, token.Shaped := by
    intro token ht
    exact Emitted.shaped ⟨tree.print, by rw [Node.print, htokens]; exact ht⟩
  refine ⟨herror, ?_⟩
  rw [Node.print, htokens]
  exact parse_of_spells hshaped hn hspells

end RoundTrip

/-- Printing undoes reading: on trees whose names are no keywords, the printer covers exactly what the
parser builds from sources, and every such tree is read back from its print. -/
theorem print_round_trip (rule : Rule) (tree : Node) (hn : KeywordFree tree.names) :
    (tree.printable rule = true → Yields rule tree.print tree) ∧
    ∀ source, Yields rule source tree → tree.printable rule = true ∧ Yields rule tree.print tree :=
  ⟨fun h => yields_print h hn, fun _ h => ⟨h.printable, yields_print h.printable hn⟩⟩

/-- A program with nested objects, every kind of literal, and a chain of operators and calls. -/
theorem print_round_trip_object :
    let tree := Node.source
      [.branch (.binary .or (.binary .less (.name "a") (.literal (.int (-3)))) (.literal (.bool true)))
        [.ret (some (.object (some "P")
          [⟨"x", some (.binary .subtract (.literal (.decimal ⟨true, 250, 7⟩)) (.literal (.int (-12))))⟩,
            ⟨"y", none⟩]
          [⟨"m", ["s", "t"], [.assign (.property (.name "s") "x") (.literal (.character "\n"))]⟩]))]
        [.perform (.method (.group (.binary .add (.name "b") (.literal .nil))) "f"
          [.literal (.string "say \"\\\t\x08'\n"), .call "g" []])]]
    KeywordFree tree.names ∧ tree.printable .source = true ∧ Yields .source tree.print tree := by
  intro tree
  have hn : KeywordFree tree.names := by unfold KeywordFree; decide
  have hp : tree.printable .source = true := by decide
  exact ⟨hn, hp, (print_round_trip .source tree hn).1 hp⟩

end ProtoScript.Grammar
