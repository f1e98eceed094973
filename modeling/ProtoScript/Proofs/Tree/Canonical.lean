import ProtoScript.Proofs.Tree.Printer

/-!
# Printed tokens spell the tree

The grammar derives every tree that can be printed from the tokens that it is printed as, and each of them
is well spelled. An operand goes on to looser layers as it is, and a chain of operators or of suffixes goes
on at its end: so the derivation follows the tree.
-/

namespace ProtoScript.Grammar
open ProtoScript.Parser ProtoScript.Token

section Operands
variable {layer : Layer} {ts us rs : List Token}

/-- A chain of operators goes on at its end. -/
theorem Derives.operands_snoc {items : List (Operator × Expr)} {right : Expr} {symbol : String}
    (h : Derives (.operands layer) us items) (hs : symbol ∈ layer.symbols)
    (hr : Derives (.operand layer.tighter) rs right) :
    Derives (.operands layer) (us ++ operatorToken layer symbol :: rs)
      (items ++ [(Operator.ofSymbol symbol, right)]) := by
  induction items generalizing us with
  | nil =>
      cases h
      simpa using Derives.operands symbol hs hr (.noOperand layer)
  | cons item items ih =>
      cases h with
      | operands s hs' hr' hi => simpa using Derives.operands s hs' hr' (ih hi)

/-- Operators of a layer are applied from the left. -/
theorem Derives.binary {left right : Expr} {symbol : String}
    (hl : Derives (.operand (some layer)) ts left) (hs : symbol ∈ layer.symbols)
    (hr : Derives (.operand layer.tighter) rs right) :
    Derives (.operand (some layer)) (ts ++ operatorToken layer symbol :: rs)
      (.binary (Operator.ofSymbol symbol) left right) := by
  cases hl with
  | chain hf hi => simpa [applyOperands] using Derives.chain hf (hi.operands_snoc hs hr)

theorem Derives.loosen {e : Expr} (h : Derives (.operand layer.tighter) ts e) :
    Derives (.operand (some layer)) ts e := by
  simpa [applyOperands] using Derives.chain h (.noOperand layer)

/-- An operand of a level is one of every looser level. -/
theorem Derives.loosenTo {inner outer : Option Layer} {e : Expr} (hd : depth inner ≤ depth outer)
    (h : Derives (.operand inner) ts e) : Derives (.operand outer) ts e := by
  induction hn : depth outer using Nat.strongRecOn generalizing outer with
  | ind n ih =>
      subst hn
      by_cases heq : inner = outer
      · exact heq ▸ h
      · cases outer with
        | none => exact absurd hd (by rcases inner with _ | (_ | _ | _ | _) <;> simp_all [depth])
        | some layer =>
            have hdepth := depth_tighter layer
            have hle : depth inner ≤ depth layer.tighter := by
              rcases inner with _ | (_ | _ | _ | _) <;> cases layer <;> simp_all [depth, Layer.tighter]
            exact (ih _ (by omega) hle rfl).loosen

end Operands

theorem depth_none_le (level : Option Layer) : depth none ≤ depth level :=
  (depth_bounds level).1

section Suffixes
variable {ts us as : List Token} {receiver : Expr} {items : List (String × Option (List Expr))}

theorem Derives.suffixes_snoc {suffix : String × Option (List Expr)} {ss : List Token}
    (h : Derives .suffixes us items) (hs : Derives .suffixes ss [suffix]) :
    Derives .suffixes (us ++ ss) (items ++ [suffix]) := by
  induction items generalizing us with
  | nil =>
      cases h
      simpa using hs
  | cons item items ih =>
      cases h with
      | property name hi => simpa using Derives.property name (ih hi)
      | method name ha hi => simpa using Derives.method name ha (ih hi)

/-- A suffix is applied to all that stands in front of it. -/
theorem Derives.suffix {suffix : String × Option (List Expr)} {ss : List Token}
    (h : Derives (.operand none) ts receiver) (hs : Derives .suffixes ss [suffix]) :
    Derives (.operand none) (ts ++ ss) (applySuffix receiver suffix) := by
  cases h with
  | secondary hp hi => simpa [applySuffixes] using Derives.secondary hp (hi.suffixes_snoc hs)

theorem Derives.operand {e : Expr} (level : Option Layer) (h : Derives .primary ts e) :
    Derives (.operand level) ts e := by
  have hsecondary : Derives (.operand none) ts e := by
    simpa [applySuffixes] using Derives.secondary h .noSuffix
  exact hsecondary.loosenTo (depth_none_le level)

end Suffixes

theorem isIdentifier_iff (name : String) :
    isIdentifier name = true ↔ (word name).WellSpelled := by
  unfold isIdentifier WellSpelled word
  generalize name.toList = text
  constructor
  · intro h
    cases text with
    | nil => cases h
    | cons c rest =>
        simp only [Bool.and_eq_true, List.all_eq_true] at h
        exact .identifier h.1 h.2
  · intro h
    cases h with
    | identifier hc ht => simpa [hc] using ht

/-- The symbols of the grammar are well spelled. -/
theorem wellSpelled_mark {text : String} (h : text ∈ ["(", ")", ",", ".", ";", "="]) :
    (mark text).WellSpelled := by
  simp only [List.mem_cons, List.not_mem_nil, or_false] at h
  rcases h with rfl | rfl | rfl | rfl | rfl | rfl <;> exact .symbol rfl

theorem wellSpelled_keyword {text : String} (h : text ∈ keywords) : (word text).WellSpelled := by
  refine (isIdentifier_iff text).mp ?_
  revert text
  decide

theorem wellSpelled_word {name : String} (h : isIdentifier name = true) : (word name).WellSpelled :=
  (isIdentifier_iff name).mp h

/-- Every token is well spelled. -/
def AllSpelled (ts : List Token) : Prop :=
  ∀ token ∈ ts, token.WellSpelled

@[simp] theorem allSpelled_nil : AllSpelled [] :=
  fun _ h => absurd h List.not_mem_nil

@[simp] theorem allSpelled_cons {token : Token} {ts : List Token} :
    AllSpelled (token :: ts) ↔ token.WellSpelled ∧ AllSpelled ts :=
  List.forall_mem_cons

@[simp] theorem allSpelled_append {ts us : List Token} :
    AllSpelled (ts ++ us) ↔ AllSpelled ts ∧ AllSpelled us :=
  List.forall_mem_append

/-- The tokens spell the tree, and every one of them is well spelled. -/
structure Canonical (symbol : Symbol) (ts : List Token) (tree : symbol.Tree) : Prop where
  derives : Derives symbol ts tree
  spelled : AllSpelled ts

theorem layer?_spec {operator : Operator} {layer : Layer} (h : operator.layer? = some layer) :
    operator.symbol ∈ layer.symbols ∧ Operator.ofSymbol operator.symbol = operator ∧
      operator.token = operatorToken layer operator.symbol ∧ operator.token.WellSpelled := by
  cases operator <;> cases h
  case and | or => exact ⟨by decide, rfl, rfl, wellSpelled_keyword (by decide)⟩
  case equal | unequal | lessEqual | greaterEqual => exact ⟨by decide, rfl, rfl, .relation rfl⟩
  case less | greater | add | subtract | multiply | divide => exact ⟨by decide, rfl, rfl, .symbol rfl⟩

section Members
variable (fields : List Declaration) (methods : List Definition)

theorem fieldsOf_members : fieldsOf (fields.map .inl ++ methods.map .inr) = fields := by
  simp [fieldsOf, List.filterMap_append, List.filterMap_map, Function.comp_def]

theorem methodsOf_members : methodsOf (fields.map .inl ++ methods.map .inr) = methods := by
  simp [methodsOf, List.filterMap_append, List.filterMap_map, Function.comp_def]

end Members

theorem allSpelled_moreParameters {names : List String} (h : names.all isIdentifier = true) :
    AllSpelled (moreParameters names) := by
  induction names with
  | nil => exact allSpelled_nil
  | cons name names ih =>
      simp only [List.all_cons, Bool.and_eq_true] at h
      simp [moreParameters, wellSpelled_mark, wellSpelled_word h.1, ih h.2]

theorem allSpelled_parameters {names : List String} (h : names.all isIdentifier = true) :
    AllSpelled (parameters names) := by
  cases names with
  | nil => simp [parameters, wellSpelled_mark]
  | cons name names =>
      simp only [List.all_cons, Bool.and_eq_true] at h
      simp [parameters, wellSpelled_mark, wellSpelled_word h.1, allSpelled_moreParameters h.2]

theorem allSpelled_objectName {name : Option String} (h : name.all isIdentifier = true) :
    AllSpelled (objectName name) := by
  cases name with
  | none => exact allSpelled_nil
  | some name => simpa [objectName] using wellSpelled_word h

end ProtoScript.Grammar

namespace ProtoScript
open ProtoScript.Parser ProtoScript.Token ProtoScript.Grammar

mutual

theorem Expr.canonical : (level : Option Layer) → (e : Expr) → e.printable level = true →
    Canonical (.operand level) e.tokens e
  | level, .literal value, h => by
      rw [Expr.tokens]
      constructor
      · exact .operand level (.literal (Literal.denotes_token h))
      · simpa using Literal.wellSpelled_token h
  | level, .group inner, h => by
      obtain ⟨hd, hs⟩ := inner.canonical (some .logical) h
      rw [Expr.tokens]
      constructor
      · exact .operand level (.group hd)
      · simp [wellSpelled_mark, hs]
  | level, .binary operator left right, h => by
      rw [Expr.printable] at h
      rw [Expr.tokens]
      split at h
      · cases h
      rename_i layer hlayer
      simp only [Bool.and_eq_true] at h
      obtain ⟨hwithin, hleft, hright⟩ := h
      obtain ⟨hmem, hsymbol, htoken, hspelled⟩ := layer?_spec hlayer
      obtain ⟨hl, hsl⟩ := left.canonical (some layer) hleft
      obtain ⟨hr, hsr⟩ := right.canonical layer.tighter hright
      constructor
      · have hd := hl.binary hmem hr
        rw [hsymbol, ← htoken] at hd
        exact hd.loosenTo (of_decide_eq_true hwithin)
      · simp [hsl, hspelled, hsr]
  | level, .name name, h => by
      rw [Expr.tokens]
      constructor
      · exact .operand level (.name name)
      · simpa using wellSpelled_word h
  | level, .property receiver name, h => by
      simp only [Expr.printable, Bool.and_eq_true] at h
      obtain ⟨hd, hs⟩ := receiver.canonical none h.1
      rw [Expr.tokens]
      constructor
      · have hsuffix := hd.suffix (.property name .noSuffix)
        exact hsuffix.loosenTo (depth_none_le level)
      · simp [hs, wellSpelled_mark, wellSpelled_word h.2]
  | level, .call name arguments, h => by
      simp only [Expr.printable, Bool.and_eq_true] at h
      obtain ⟨hd, hs⟩ := canonical_arguments arguments h.2
      rw [Expr.tokens]
      constructor
      · exact .operand level (.call name hd)
      · simp [hs, wellSpelled_word h.1]
  | level, .method receiver name arguments, h => by
      simp only [Expr.printable, Bool.and_eq_true] at h
      obtain ⟨hd, hs⟩ := receiver.canonical none h.1
      obtain ⟨hda, hsa⟩ := canonical_arguments arguments h.2.2
      rw [Expr.tokens]
      constructor
      · have hsuffix := hd.suffix (.method name hda .noSuffix)
        rw [List.append_nil] at hsuffix
        exact hsuffix.loosenTo (depth_none_le level)
      · simp [hs, hsa, wellSpelled_mark, wellSpelled_word h.2.1]
  | level, .object name fields methods, h => by
      simp only [Expr.printable, Bool.and_eq_true] at h
      obtain ⟨hf, hsf⟩ := canonical_declarations fields h.2.1
      obtain ⟨hm, hsm⟩ := canonical_definitions methods h.2.2
      rw [Expr.tokens]
      constructor
      · have hobject := Derives.object name (hf hm)
        rw [fieldsOf_members, methodsOf_members] at hobject
        exact .operand level hobject
      · simp +decide [hsf, hsm, wellSpelled_keyword, allSpelled_objectName h.1]

theorem canonical_arguments : (es : List Expr) → printableExprs es = true →
    Canonical .arguments (tokensOfArguments es) es
  | [], _ => by
      rw [tokensOfArguments]
      exact ⟨.noArgument, by simp [wellSpelled_mark]⟩
  | e :: rest, h => by
      simp only [printableExprs, Bool.and_eq_true] at h
      obtain ⟨hd, hs⟩ := e.canonical (some .logical) h.1
      obtain ⟨hdm, hsm⟩ := canonical_more rest h.2
      rw [tokensOfArguments]
      exact ⟨.arguments hd hdm, by simp [hs, hsm, wellSpelled_mark]⟩

theorem canonical_more : (es : List Expr) → printableExprs es = true →
    Canonical .moreArguments (tokensOfMore es) es
  | [], _ => by
      rw [tokensOfMore]
      exact ⟨.noMoreArgument, allSpelled_nil⟩
  | e :: rest, h => by
      simp only [printableExprs, Bool.and_eq_true] at h
      obtain ⟨hd, hs⟩ := e.canonical (some .logical) h.1
      obtain ⟨hdm, hsm⟩ := canonical_more rest h.2
      rw [tokensOfMore]
      exact ⟨.moreArguments hd hdm, by simp [hs, hsm, wellSpelled_mark]⟩

theorem Declaration.canonical : (d : Declaration) → d.printable = true →
    Canonical .declaration d.tokens d
  | ⟨name, none⟩, h => by
      simp only [Declaration.printable, Bool.and_eq_true] at h
      rw [Declaration.tokens]
      refine ⟨.letBare name, ?_⟩
      simp +decide [wellSpelled_keyword, wellSpelled_mark, wellSpelled_word h.1]
  | ⟨name, some value⟩, h => by
      simp only [Declaration.printable, Bool.and_eq_true] at h
      obtain ⟨hd, hs⟩ := value.canonical (some .logical) h.2
      rw [Declaration.tokens]
      refine ⟨.letValue name hd, ?_⟩
      simp +decide [wellSpelled_keyword, wellSpelled_mark, wellSpelled_word h.1, hs]

/-- Fields are printed in front of the methods of an object. -/
theorem canonical_declarations : (ds : List Declaration) → printableDeclarations ds = true →
    (∀ {ms items}, Derives .members ms items →
      Derives .members (tokensOfDeclarations ds ++ ms) (ds.map .inl ++ items)) ∧
      AllSpelled (tokensOfDeclarations ds)
  | [], _ => by
      rw [tokensOfDeclarations]
      exact ⟨fun h => h, allSpelled_nil⟩
  | d :: rest, h => by
      simp only [printableDeclarations, Bool.and_eq_true] at h
      obtain ⟨hd, hs⟩ := d.canonical h.1
      obtain ⟨hr, hsr⟩ := canonical_declarations rest h.2
      rw [tokensOfDeclarations]
      refine ⟨fun hm => ?_, by simp [hs, hsr]⟩
      simpa using Derives.field hd (hr hm)

theorem Definition.canonical : (d : Definition) → d.printable = true →
    Canonical .definition d.tokens d
  | ⟨name, names, body⟩, h => by
      simp only [Definition.printable, Bool.and_eq_true] at h
      obtain ⟨hd, hs⟩ := canonical_statements body h.2.2
      rw [Definition.tokens]
      refine ⟨.definition name names hd, ?_⟩
      simp +decide [wellSpelled_keyword, wellSpelled_word h.1, allSpelled_parameters h.2.1, hs]

theorem canonical_definitions : (ds : List Definition) → printableDefinitions ds = true →
    Canonical .members (tokensOfDefinitions ds) (ds.map .inr)
  | [], _ => by
      rw [tokensOfDefinitions]
      exact ⟨.noMember, allSpelled_nil⟩
  | d :: rest, h => by
      simp only [printableDefinitions, Bool.and_eq_true] at h
      obtain ⟨hd, hs⟩ := d.canonical h.1
      obtain ⟨hr, hsr⟩ := canonical_definitions rest h.2
      rw [tokensOfDefinitions]
      exact ⟨.ownMethod hd hr, by simp [hs, hsr]⟩

theorem Stmt.canonical : (s : Stmt) → s.printable = true → Canonical .statement s.tokens s
  | .declare d, h => by
      obtain ⟨hd, hs⟩ := d.canonical h
      rw [Stmt.tokens]
      exact ⟨.declare hd, hs⟩
  | .define d, h => by
      obtain ⟨hd, hs⟩ := d.canonical h
      rw [Stmt.tokens]
      exact ⟨.define hd, hs⟩
  | .branch condition thenBody [], h => by
      simp only [Stmt.printable, Bool.and_eq_true] at h
      obtain ⟨hc, hsc⟩ := condition.canonical (some .logical) h.1
      obtain ⟨ht, hst⟩ := canonical_statements thenBody h.2.1
      rw [Stmt.tokens]
      exact ⟨.branch hc ht, by simp +decide [wellSpelled_keyword, hsc, hst]⟩
  | .branch condition thenBody (s :: rest), h => by
      simp only [Stmt.printable, Bool.and_eq_true] at h
      obtain ⟨hc, hsc⟩ := condition.canonical (some .logical) h.1
      obtain ⟨ht, hst⟩ := canonical_statements thenBody h.2.1
      obtain ⟨he, hse⟩ := canonical_statements (s :: rest) h.2.2
      rw [Stmt.tokens]
      · exact ⟨.branchElse hc ht he, by simp +decide [wellSpelled_keyword, hsc, hst, hse]⟩
      · simp
  | .loop name iterable body, h => by
      simp only [Stmt.printable, Bool.and_eq_true] at h
      obtain ⟨hi, hsi⟩ := iterable.canonical (some .logical) h.2.1
      obtain ⟨hb, hsb⟩ := canonical_statements body h.2.2
      rw [Stmt.tokens]
      refine ⟨.loop name hi hb, ?_⟩
      simp +decide [wellSpelled_keyword, wellSpelled_word h.1, hsi, hsb]
  | .ret none, _ => by
      rw [Stmt.tokens]
      exact ⟨.ret .noValue, by simp +decide [wellSpelled_keyword, wellSpelled_mark]⟩
  | .ret (some value), h => by
      obtain ⟨hd, hs⟩ := value.canonical (some .logical) h
      rw [Stmt.tokens]
      exact ⟨.ret (.value hd), by simp +decide [wellSpelled_keyword, wellSpelled_mark, hs]⟩
  | .perform expression, h => by
      obtain ⟨hd, hs⟩ := expression.canonical (some .logical) h
      rw [Stmt.tokens]
      exact ⟨.perform hd, by simp [wellSpelled_mark, hs]⟩
  | .assign target value, h => by
      simp only [Stmt.printable, Bool.and_eq_true] at h
      obtain ⟨ht, hst⟩ := target.canonical (some .logical) h.2.1
      obtain ⟨hv, hsv⟩ := value.canonical (some .logical) h.2.2
      rw [Stmt.tokens]
      exact ⟨.assign ht h.1 hv, by simp [wellSpelled_mark, hst, hsv]⟩

theorem canonical_statements : (body : List Stmt) → printableStmts body = true →
    Canonical .statements (tokensOfStmts body) body
  | [], _ => by
      rw [tokensOfStmts]
      exact ⟨.noStatement, allSpelled_nil⟩
  | s :: rest, h => by
      simp only [printableStmts, Bool.and_eq_true] at h
      obtain ⟨hd, hs⟩ := s.canonical h.1
      obtain ⟨hr, hsr⟩ := canonical_statements rest h.2
      rw [tokensOfStmts]
      exact ⟨.statements hd hr, by simp [hs, hsr]⟩

end

end ProtoScript
