import ProtoScript.Proofs.Literal.Spelling
import ProtoScript.Proofs.Text.Alphabet
import ProtoScript.Proofs.Token.Exact
import ProtoScript.Proofs.Tree.Blame
import ProtoScript.Proofs.Tree.Parts
import ProtoScript.Proofs.Tree.Stops

/-!
# The letters of parse trees

The words of a parse tree are tokens, or what quoted tokens denote. A parse that fails shows one of its
tokens, in a message with words of the grammar. So both keep to the alphabet of the tokens.
-/

namespace ProtoScript
open ProtoScript.Text ProtoScript.Text.Alphabet ProtoScript.Parser

namespace Literal
variable {A : Alphabet}

/-- No escape sequence of the language stands for the escape character. -/
theorem has_escaped {c e : Char} (h : escaped c = some e) : A.has e := by
  refine A.ordinary ?_
  unfold escaped at h
  split at h <;> cases h <;> decide

theorem has_decodeEscapes {text : List Char} (h : ∀ c ∈ text, A.has c) :
    ∀ c ∈ decodeEscapes text, A.has c := by
  fun_induction decodeEscapes text with
  | case1 | case2 c => exact h
  | case3 d rest e he ih =>
      simp only [List.forall_mem_cons] at h
      exact List.forall_mem_cons.mpr ⟨has_escaped he, ih h.2.2⟩
  | case4 d rest he ih =>
      simp only [List.forall_mem_cons] at h ⊢
      exact ⟨h.1, h.2.1, ih h.2.2⟩
  | case5 c d rest hc ih =>
      obtain ⟨hfirst, hrest⟩ := List.forall_mem_cons.mp h
      exact List.forall_mem_cons.mpr ⟨hfirst, ih hrest⟩

theorem spells_decode {literal : String} (h : A.Spells literal) : A.Spells (decode literal) := by
  refine spells_ofList.mpr (has_decodeEscapes fun c hc => h c ?_)
  exact List.mem_of_mem_drop (List.dropLast_subset _ hc)

/-- A number has no text. -/
theorem words_ofNumber {token : Token} {value : Literal} (h : ofNumber token = .ok value) :
    value.words = [] := by
  unfold ofNumber integerValue scaledValue at h
  grind [Literal.words]

end Literal

namespace Grammar
variable {A : Alphabet}

theorem Denotes.letters {token : Token} {value : Literal} (h : Denotes token value)
    (ht : A.Spells token.literal) : ∀ word ∈ value.words, A.Spells word := by
  cases h with
  | nil | true | false => simp [Literal.words]
  | number _ hv => simp [Literal.words_ofNumber hv]
  | character text | string text => simpa [Literal.words] using Literal.spells_decode ht

/-- The words in a suffix are in the alphabet. -/
def SuffixSpelled (A : Alphabet) (suffix : String × Option (List Expr)) : Prop :=
  A.Spells suffix.1 ∧ ∀ arguments ∈ suffix.2, ∀ e ∈ arguments, (Node.expr e).AllWords A.Spells

/-- The words in a member of an object are in the alphabet. -/
def MemberSpelled (A : Alphabet) : Declaration ⊕ Definition → Prop
  | .inl d => (Node.stmt (.declare d)).AllWords A.Spells
  | .inr d => (Node.stmt (.define d)).AllWords A.Spells

/-- The words in a tree of a symbol are in the alphabet. -/
def Symbol.Spelled (A : Alphabet) : (symbol : Symbol) → symbol.Tree → Prop
  | .statement, s => (Node.stmt s).AllWords A.Spells
  | .statements, body => ∀ s ∈ body, (Node.stmt s).AllWords A.Spells
  | .declaration, d => (Node.stmt (.declare d)).AllWords A.Spells
  | .definition, d => (Node.stmt (.define d)).AllWords A.Spells
  | .optional, value => ∀ e ∈ value, (Node.expr e).AllWords A.Spells
  | .operand _, e => (Node.expr e).AllWords A.Spells
  | .operands _, items => ∀ item ∈ items, A.Spells item.1.symbol ∧ (Node.expr item.2).AllWords A.Spells
  | .primary, e => (Node.expr e).AllWords A.Spells
  | .suffixes, items => ∀ item ∈ items, SuffixSpelled A item
  | .arguments, es => ∀ e ∈ es, (Node.expr e).AllWords A.Spells
  | .moreArguments, es => ∀ e ∈ es, (Node.expr e).AllWords A.Spells
  | .members, items => ∀ item ∈ items, MemberSpelled A item

theorem spelled_applyOperands {left : Expr} {items : List (Operator × Expr)}
    (hl : (Node.expr left).AllWords A.Spells)
    (hi : ∀ item ∈ items, A.Spells item.1.symbol ∧ (Node.expr item.2).AllWords A.Spells) :
    (Node.expr (applyOperands left items)).AllWords A.Spells := by
  induction items generalizing left with
  | nil => exact hl
  | cons item items ih =>
      obtain ⟨⟨hsymbol, hright⟩, hi⟩ := List.forall_mem_cons.mp hi
      refine ih (Node.allWords_iff.mpr ⟨?_, ?_⟩) hi
      · simpa [Node.words, Expr.words] using hsymbol
      · simpa [Node.parts, Expr.parts] using ⟨hl, hright⟩

theorem spelled_applySuffixes {receiver : Expr} {items : List (String × Option (List Expr))}
    (hr : (Node.expr receiver).AllWords A.Spells) (hi : ∀ item ∈ items, SuffixSpelled A item) :
    (Node.expr (applySuffixes receiver items)).AllWords A.Spells := by
  induction items generalizing receiver with
  | nil => exact hr
  | cons item items ih =>
      obtain ⟨⟨hname, harguments⟩, hi⟩ := List.forall_mem_cons.mp hi
      refine ih (Node.allWords_iff.mpr ?_) hi
      obtain ⟨name, _ | arguments⟩ := item
      · exact ⟨by simpa [applySuffix, Node.words, Expr.words] using hname,
          by simpa [applySuffix, Node.parts, Expr.parts] using hr⟩
      · exact ⟨by simpa [applySuffix, Node.words, Expr.words] using hname,
          by simpa [applySuffix, Node.parts, Expr.parts] using ⟨hr, harguments arguments rfl⟩⟩

theorem spelled_members {items : List (Declaration ⊕ Definition)} (h : ∀ item ∈ items, MemberSpelled A item) :
    (∀ d ∈ fieldsOf items, (Node.stmt (.declare d)).AllWords A.Spells) ∧
      ∀ d ∈ methodsOf items, (Node.stmt (.define d)).AllWords A.Spells := by
  induction items with
  | nil => simp [fieldsOf, methodsOf]
  | cons item items ih =>
      obtain ⟨hitem, hitems⟩ := List.forall_mem_cons.mp h
      obtain ⟨hfields, hmethods⟩ := ih hitems
      cases item with
      | inl d => exact ⟨List.forall_mem_cons.mpr ⟨hitem, hfields⟩, hmethods⟩
      | inr d => exact ⟨hfields, List.forall_mem_cons.mpr ⟨hitem, hmethods⟩⟩

theorem spelled_moreParameters {names : List String}
    (h : ∀ token ∈ moreParameters names, A.Spells token.literal) : ∀ name ∈ names, A.Spells name := by
  induction names with
  | nil => simp
  | cons name rest ih =>
      simp only [moreParameters, List.forall_mem_cons] at h
      exact List.forall_mem_cons.mpr ⟨h.2.1, ih h.2.2⟩

theorem spelled_parameters {names : List String}
    (h : ∀ token ∈ parameters names, A.Spells token.literal) : ∀ name ∈ names, A.Spells name := by
  cases names with
  | nil => simp
  | cons name rest =>
      simp only [parameters, List.forall_mem_cons, List.forall_mem_append] at h
      exact List.forall_mem_cons.mpr ⟨h.2.1, spelled_moreParameters h.2.2.1⟩

/-- The tree of a derivation is made of the words in its tokens. -/
theorem Derives.letters {symbol : Symbol} {ts : List Token} {tree : symbol.Tree}
    (h : Derives symbol ts tree) (hts : ∀ token ∈ ts, A.Spells token.literal) : symbol.Spelled A tree := by
  -- A rule's tokens are those of its parts, so the condition comes apart along the rule.
  induction h <;> simp only [List.forall_mem_append, List.forall_mem_cons, Symbol.Spelled] at hts ⊢
  case noStatement | noValue | noOperand | noSuffix | noArgument | noMoreArgument | noMember =>
    simp
  case statements ihf ihr => exact ⟨ihf hts.1, ihr hts.2⟩
  case declare ih | define ih => exact ih hts
  case branch ihc iht =>
    obtain ⟨-, hcs, -, hbs, -⟩ := hts
    refine Node.allWords_iff.mpr ⟨by simp [Node.words, Stmt.words], ?_⟩
    refine List.forall_mem_cons.mpr ⟨ihc hcs, List.forall_mem_map.mpr ?_⟩
    exact List.forall_mem_append.mpr ⟨iht hbs, by simp⟩
  case branchElse ihc iht ihe =>
    obtain ⟨-, hcs, -, hbs, -, hes, -⟩ := hts
    refine Node.allWords_iff.mpr ⟨by simp [Node.words, Stmt.words], ?_⟩
    refine List.forall_mem_cons.mpr ⟨ihc hcs, List.forall_mem_map.mpr ?_⟩
    exact List.forall_mem_append.mpr ⟨iht hbs, ihe hes⟩
  case loop ihi ihb =>
    obtain ⟨-, hname, -, his, -, hbs, -⟩ := hts
    refine Node.allWords_iff.mpr ⟨List.forall_mem_singleton.mpr hname, ?_⟩
    exact List.forall_mem_cons.mpr ⟨ihi his, List.forall_mem_map.mpr (ihb hbs)⟩
  case ret ih =>
    refine Node.allWords_iff.mpr ⟨by simp [Node.words, Stmt.words], List.forall_mem_map.mpr ?_⟩
    exact fun e he => ih hts.2.1 e (Option.mem_toList.mp he)
  case retIf ihv ihc =>
    obtain ⟨-, hvs, -, hcs, -⟩ := hts
    refine Node.allWords_iff.mpr ⟨by simp [Node.words, Stmt.words], ?_⟩
    refine List.forall_mem_cons.mpr ⟨ihc hcs, List.forall_mem_singleton.mpr (Node.allWords_iff.mpr ?_)⟩
    refine ⟨by simp [Node.words, Stmt.words], List.forall_mem_map.mpr ?_⟩
    exact fun e he => ihv hvs e (Option.mem_toList.mp he)
  case perform ih =>
    refine Node.allWords_iff.mpr ⟨by simp [Node.words, Stmt.words], ?_⟩
    exact List.forall_mem_singleton.mpr (ih hts.1)
  case assign iht ihv =>
    refine Node.allWords_iff.mpr ⟨by simp [Node.words, Stmt.words], ?_⟩
    exact List.forall_mem_cons.mpr ⟨iht hts.1, List.forall_mem_singleton.mpr (ihv hts.2.2.1)⟩
  case letBare =>
    refine Node.allWords_iff.mpr ⟨List.forall_mem_singleton.mpr hts.2.1, ?_⟩
    simp [Node.parts, Stmt.parts]
  case letValue ih =>
    refine Node.allWords_iff.mpr ⟨List.forall_mem_singleton.mpr hts.2.1, ?_⟩
    exact List.forall_mem_singleton.mpr (ih hts.2.2.2.1)
  case definition ih =>
    obtain ⟨-, hname, hnames, -, hbs, -⟩ := hts
    refine Node.allWords_iff.mpr ⟨?_, List.forall_mem_map.mpr (ih hbs)⟩
    exact List.forall_mem_cons.mpr ⟨hname, spelled_parameters hnames⟩
  case value ih =>
    rintro _ ⟨⟩
    exact ih hts
  case chain ihf ihi => exact spelled_applyOperands (ihf hts.1) (ihi hts.2)
  case operands layer _ _ _ _ symbol _ _ _ ihr ihi =>
    refine ⟨⟨?_, ihr hts.2.1⟩, ihi hts.2.2⟩
    rw [Operator.symbol_ofSymbol]
    cases layer <;> exact hts.1
  case secondary ihp ihi => exact spelled_applySuffixes (ihp hts.1) (ihi hts.2)
  case property ih =>
    exact ⟨⟨hts.2.1, by simp⟩, ih hts.2.2⟩
  case method iha ihi =>
    refine ⟨⟨hts.2.1, ?_⟩, ihi hts.2.2.2⟩
    rintro _ ⟨⟩
    exact iha hts.2.2.1
  case arguments ihf ihm => exact ⟨ihf hts.2.1, ihm hts.2.2.1⟩
  case moreArguments ihf ihm => exact ⟨ihf hts.2.1, ihm hts.2.2⟩
  case literal hd =>
    exact Node.allWords_iff.mpr ⟨hd.letters hts.1, by simp [Node.parts, Expr.parts]⟩
  case group ih =>
    refine Node.allWords_iff.mpr ⟨by simp [Node.words, Expr.words], ?_⟩
    exact List.forall_mem_singleton.mpr (ih hts.2.1)
  case object name _ ih =>
    obtain ⟨-, hname, -, hms, -⟩ := hts
    obtain ⟨hfields, hmethods⟩ := spelled_members (ih hms)
    refine Node.allWords_iff.mpr ⟨?_, List.forall_mem_append.mpr ⟨?_, ?_⟩⟩
    · simpa [Node.words, Expr.words, objectName, word] using hname
    · exact List.forall_mem_map.mpr hfields
    · exact List.forall_mem_map.mpr hmethods
  case call ih =>
    exact Node.allWords_iff.mpr ⟨List.forall_mem_singleton.mpr hts.1, List.forall_mem_map.mpr (ih hts.2)⟩
  case name =>
    exact Node.allWords_iff.mpr ⟨List.forall_mem_singleton.mpr hts.1, by simp [Node.parts, Expr.parts]⟩
  case field ihd ihi | ownMethod ihd ihi => exact ⟨ihd hts.1, ihi hts.2⟩

/-- A parse tree is made of the words in its tokens. -/
theorem letters_of_parse {rule : Rule} {tokens : List Token} {tree : Node}
    (hshaped : ∀ token ∈ tokens, token.Shaped) (h : parse rule tokens = .ok tree)
    (hts : ∀ token ∈ tokens, A.Spells token.literal) : tree.AllWords A.Spells := by
  have hspells := spells_of_parse hshaped h
  cases rule <;> cases tree <;> try exact hspells.elim
  case source.source statements =>
    have hd : Derives .statements tokens statements := hspells
    exact Node.allWords_iff.mpr ⟨by simp [Node.words], List.forall_mem_map.mpr (hd.letters hts)⟩
  case statement.stmt statement =>
    have hd : Derives .statement tokens statement := hspells
    exact hd.letters hts
  case expression.expr expression =>
    have hd : Derives .expression tokens expression := hspells
    exact hd.letters hts

end Grammar

section Misfits
variable {A : Alphabet}

/-- The words of the grammar that a misfit names. -/
def Misfit.words : Misfit → List String
  | .notText text => [text]
  | .openBlock closers => closers
  | _ => []

theorem Misfit.spells_template {cause : Misfit} (h : ∀ word ∈ cause.words, A.Spells word) :
    A.Spells cause.template := by
  cases cause with
  | notText text =>
      exact (h text List.mem_cons_self).framed (by decide) (by decide)
  | notName role =>
      have hrole : A.Spells role.description := by cases role <;> exact spells_word (by decide)
      exact hrole.framed (by decide) (by decide)
  | openBlock closers =>
      have hseparator : A.Spells " or " := spells_word (by decide)
      have hclosers := hseparator.intercalate h
      exact hclosers.framed (by decide) (by decide)
  | notEnd | target | notExpression | notMember | exponentRange | fractional =>
      exact spells_word (by decide)

namespace Grammar
variable {α : Type}

theorem spells_landmark {text : String} (h : text ∈ landmarks) : A.Spells text := by
  have hall : landmarks.all (fun text => text.toList.all (· ≠ escapeChar)) = true := by decide
  intro c hc
  refine A.ordinary ?_
  simpa using List.all_eq_true.mp (List.all_eq_true.mp hall text h) c hc

/-- A step that ends the parse names words of the grammar. -/
theorem Verdict.InUse.landmarks {verdict : Option Token → Verdict α} (h : Verdict.InUse verdict)
    {head : Option Token} {cause : Misfit} (hv : verdict head = .misfit cause) :
    cause.words ⊆ landmarks := by
  cases h with
  | seen | ending => cases hv
  | text =>
      unfold Verdict.text at hv
      split at hv <;> cases hv
  | name =>
      unfold Verdict.name at hv
      split at hv <;> cases hv
  | operator layer =>
      unfold Verdict.operator at hv
      split at hv
      · split at hv <;> cases hv
      · cases hv
  | expected h =>
      unfold Verdict.expected at hv
      split at hv <;> cases hv
      simpa [Misfit.words] using h
  | expectedName role =>
      unfold Verdict.expectedName at hv
      split at hv <;> cases hv
      simp [Misfit.words]
  | literal => cases head <;> grind [Verdict.literal, Verdict.number, Misfit.words]
  | closing h =>
      cases head with
      | some token => cases hv
      | none =>
          cases hv
          exact h
  | ended =>
      cases head with
      | none => cases hv
      | some token =>
          cases hv
          simp [Misfit.words]
  | refused h =>
      cases hv
      rcases List.mem_cons.mp h with rfl | h
      · simp [Misfit.words]
      rcases List.mem_cons.mp h with rfl | h
      · simp [Misfit.words]
      · rw [List.mem_singleton.mp h]
        simp [Misfit.words]

/-- A misfit is found in front of tokens of the input, and names words of the grammar. -/
theorem Built.misfit {p : Parse α} (h : Built p) {ts rest : List Token} {cause : Misfit}
    (hp : p ts = .error (.misfit cause rest)) : rest <:+ ts ∧ cause.words ⊆ landmarks := by
  induction h generalizing ts with
  | pure a => cases hp
  | tooDeep => cases hp
  | bind h _ ih ihf =>
      rcases bind_eq_error hp with hp | ⟨a, mid, hp, hf⟩
      · exact ih hp
      · obtain ⟨hrest, hwords⟩ := ihf a hf
        exact ⟨hrest.trans (h.draws.leaves hp), hwords⟩
  | step h =>
      unfold decideBy at hp
      split at hp <;> cases hp
      exact ⟨List.suffix_refl _, h.landmarks ‹_›⟩

/-- A parse that fails shows one of its tokens with words of the grammar, or what is wrong with a number. -/
theorem letters_of_parse_error {rule : Rule} {tokens : List Token} {fault : ParseFault}
    (hemitted : ∀ token ∈ tokens, token.Emitted) (h : parse rule tokens = .error fault)
    (hts : ∀ token ∈ tokens, A.Spells token.literal) :
    (∃ e, fault = .error e ∧ A.SpellsMessage e.message) ∨
      ∃ reason, fault = .unusable reason ∧ A.Spells reason.title ∧ A.Spells reason.text := by
  rcases parse_fails_grounded h with ⟨e, rfl, -⟩ | ⟨reason, rfl, token, ht, hkind, hnumber⟩
  · obtain ⟨cause, rest, hstop, rfl⟩ := exists_misfit h
    obtain ⟨hrest, hwords⟩ := (built_parseWhole _ rule).misfit hstop
    refine .inl ⟨_, rfl, spellsMessage_one ?_ ?_⟩
    · exact Misfit.spells_template fun word hw => spells_landmark (hwords hw)
    · cases rest with
      | nil => exact spells_word (by decide)
      | cons token rest => exact hts token (hrest.subset List.mem_cons_self)
  · refine .inr ⟨reason, rfl, ?_⟩
    rcases Literal.unusable_of_wellSpelled (hemitted token ht).wellSpelled hkind hnumber with
      ⟨count, -, rfl⟩ | rfl
    · refine ⟨spells_word (by decide), ?_⟩
      exact (spells_ofNat count).framed (by decide) (by decide)
    · exact ⟨spells_word (by decide), spells_word (by decide)⟩

end Grammar

end Misfits

end ProtoScript
