import ProtoScript.Proofs.Tree.Exact
import ProtoScript.Session.Source

/-!
# Open blocks

The completeness test counts the words that open and close blocks. A phrase of the grammar closes what it
opens, and never more than that on the way, if no name in it is one of the two words. So a phrase that
stands in front does not change what the test says about the tokens behind it.
-/

namespace ProtoScript.Grammar
open ProtoScript.Parser

/-- How many blocks are open behind the tokens. -/
def openBlocks (ts : List Token) : Int :=
  countKeyword "DO" ts - countKeyword "END" ts

/-- A token that neither opens nor closes a block. -/
def Neutral (token : Token) : Prop :=
  token ≠ word "DO" ∧ token ≠ word "END"

instance (token : Token) : Decidable (Neutral token) :=
  inferInstanceAs (Decidable (_ ∧ _))

/-- A name that is neither of the words around a block. -/
def IsFree (name : String) : Prop :=
  name ≠ "DO" ∧ name ≠ "END"

instance (name : String) : Decidable (IsFree name) :=
  inferInstanceAs (Decidable (_ ∧ _))

/-- Tokens that close each block they open, and none that they have not opened before. -/
structure Balanced (ts : List Token) : Prop where
  settled : openBlocks ts = 0
  nonneg : ∀ front, front <+: ts → 0 ≤ openBlocks front

section Counting
variable {token : Token} {front ts us : List Token}

theorem countKeyword_cons (keyword : String) (token : Token) (ts : List Token) :
    countKeyword keyword (token :: ts) = countKeyword keyword ts + if token = word keyword then 1 else 0 := by
  rw [countKeyword, List.countP_cons]
  have hiff : (decide (token.kind = .identifier) && decide (token.literal = keyword)) = true ↔
      token = word keyword := by
    cases token
    simp [word]
  simp only [hiff, countKeyword]

@[simp] theorem openBlocks_nil : openBlocks [] = 0 := rfl

@[simp] theorem openBlocks_append (ts us : List Token) :
    openBlocks (ts ++ us) = openBlocks ts + openBlocks us := by
  simp only [openBlocks, countKeyword, List.countP_append]
  omega

@[simp] theorem openBlocks_do (ts : List Token) : openBlocks (word "DO" :: ts) = openBlocks ts + 1 := by
  have hne : word "DO" ≠ word "END" := by decide
  rw [openBlocks, countKeyword_cons, countKeyword_cons, if_pos rfl, if_neg hne, openBlocks]
  omega

@[simp] theorem openBlocks_end (ts : List Token) : openBlocks (word "END" :: ts) = openBlocks ts - 1 := by
  have hne : word "END" ≠ word "DO" := by decide
  rw [openBlocks, countKeyword_cons, countKeyword_cons, if_neg hne, if_pos rfl, openBlocks]
  omega

theorem Neutral.openBlocks_cons (h : Neutral token) (ts : List Token) :
    openBlocks (token :: ts) = openBlocks ts := by
  rw [openBlocks, countKeyword_cons, countKeyword_cons, if_neg h.1, if_neg h.2]
  rfl

/-- A front of two lists ends in the first of them, or goes on into the second. -/
theorem prefix_append_split (h : front <+: ts ++ us) :
    front <+: ts ∨ ∃ more, more ≠ [] ∧ more <+: us ∧ front = ts ++ more := by
  by_cases hle : front.length ≤ ts.length
  · exact .inl (List.prefix_of_prefix_length_le h (List.prefix_append ts us) hle)
  · obtain ⟨more, rfl⟩ :=
      List.prefix_of_prefix_length_le (List.prefix_append ts us) h (Nat.le_of_not_le hle)
    refine .inr ⟨more, ?_, (List.prefix_append_right_inj ts).mp h, rfl⟩
    rintro rfl
    exact hle (Nat.le_of_eq (congrArg List.length (List.append_nil ts)))

/-- A block is cut before it starts, while it is open, or at its end. -/
theorem prefix_block_cases (h : front <+: word "DO" :: (ts ++ [word "END"])) :
    front = [] ∨ (∃ part, part <+: ts ∧ front = word "DO" :: part) ∨
      front = word "DO" :: (ts ++ [word "END"]) := by
  rcases List.prefix_cons_iff.mp h with hfront | ⟨part, hfront, hpart⟩
  · exact .inl hfront
  · rcases List.prefix_concat_iff.mp hpart with hpart | hpart
    · rw [hpart] at hfront
      exact .inr (.inr hfront)
    · exact .inr (.inl ⟨part, hpart, hfront⟩)

namespace Balanced

theorem nil : Balanced [] where
  settled := rfl
  nonneg front h := Int.le_of_eq (by rw [List.prefix_nil.mp h, openBlocks_nil])

theorem append (h : Balanced ts) (h' : Balanced us) : Balanced (ts ++ us) where
  settled := by rw [openBlocks_append, h.settled, h'.settled, Int.add_zero]
  nonneg front hp := by
    rcases prefix_append_split hp with hp | ⟨more, -, hm, rfl⟩
    · exact h.nonneg front hp
    · rw [openBlocks_append, h.settled, Int.zero_add]
      exact h'.nonneg more hm

theorem single (h : Neutral token) : Balanced [token] where
  settled := h.openBlocks_cons []
  nonneg front hp := by
    rcases List.prefix_cons_iff.mp hp with rfl | ⟨part, rfl, hpart⟩
    · exact Int.le_refl 0
    · rw [h.openBlocks_cons]
      exact nil.nonneg part hpart

theorem cons (ht : Neutral token) (h : Balanced ts) : Balanced (token :: ts) :=
  (single ht).append h

theorem of_neutral (h : ∀ token ∈ ts, Neutral token) : Balanced ts := by
  induction ts with
  | nil => exact nil
  | cons token ts ih =>
      rw [List.forall_mem_cons] at h
      exact (ih h.2).cons h.1

/-- Until its last token, a block is open. -/
theorem pos_of_prefix (h : Balanced ts) (hp : front <+: ts) : 0 < openBlocks (word "DO" :: front) := by
  have := h.nonneg front hp
  rw [openBlocks_do]
  omega

theorem block (h : Balanced ts) : Balanced (word "DO" :: (ts ++ [word "END"])) where
  settled := by simp [h.settled]
  nonneg front hp := by
    rcases prefix_block_cases hp with rfl | ⟨part, hpart, rfl⟩ | rfl
    · exact Int.le_refl 0
    · exact Int.le_of_lt (h.pos_of_prefix hpart)
    · simp [h.settled]

end Balanced

end Counting

/-- Tokens that the completeness test lets pass as a unit, and not because there are none. -/
def Concluded (ts : List Token) : Prop :=
  ts ≠ [] ∧ isComplete ts = true

section Completeness
variable {token : Token} {ts us : List Token}

theorem concluded_iff :
    Concluded ts ↔
      openBlocks ts ≤ 0 ∧ ∃ last, ts.getLast? = some last ∧ (last.literal = ";" ∨ last.literal = "END") := by
  have hopen : openBlocks ts ≤ 0 ↔ countKeyword "DO" ts ≤ countKeyword "END" ts := by
    unfold openBlocks
    omega
  rw [Concluded, isComplete, hopen]
  cases hlast : ts.getLast? with
  | none => simp [List.getLast?_eq_none_iff.mp hlast]
  | some last =>
      have hne : ts ≠ [] := by
        rintro rfl
        cases hlast
      simp [hne]

/-- Where no block is open, the test looks at what follows only. -/
theorem concluded_append_iff (h : openBlocks ts = 0) (hu : us ≠ []) :
    Concluded (ts ++ us) ↔ Concluded us := by
  obtain ⟨last, hlast⟩ := Option.ne_none_iff_exists'.mp (mt List.getLast?_eq_none_iff.mp hu)
  rw [concluded_iff, concluded_iff, openBlocks_append, h, Int.zero_add, List.getLast?_append, hlast,
    Option.some_or]

theorem Concluded.append (hu : Concluded us) (h : openBlocks ts = 0) : Concluded (ts ++ us) :=
  (concluded_append_iff h hu.1).mpr hu

theorem Concluded.cons (hu : Concluded us) (h : Neutral token) : Concluded (token :: us) :=
  hu.append (h.openBlocks_cons [])

theorem concluded_block (h : Balanced ts) : Concluded (word "DO" :: (ts ++ [word "END"])) := by
  refine concluded_iff.mpr ⟨Int.le_of_eq h.block.settled, word "END", ?_, .inr rfl⟩
  rw [← List.cons_append, List.getLast?_concat]

end Completeness

section Phrases
variable {symbol : Symbol} {ts : List Token} {tree : symbol.Tree}

theorem neutral_mark (text : String) : Neutral (mark text) := by
  simp [Neutral, mark, word]

theorem neutral_word {name : String} (h : IsFree name) : Neutral (word name) := by
  simpa [Neutral, word, IsFree] using h

theorem neutral_operatorToken {layer : Layer} {text : String} (h : text ∈ layer.symbols) :
    Neutral (operatorToken layer text) := by
  have hneutral : ∀ text ∈ layer.symbols, Neutral (operatorToken layer text) := by cases layer <;> decide
  exact hneutral text h

theorem Denotes.neutral {token : Token} {value : Literal} (h : Denotes token value) : Neutral token := by
  cases h with
  | nil | true | false => decide
  | number hk _ =>
      have hne (name : String) : token ≠ word name := by
        rintro rfl
        rcases hk with hk | hk <;> cases hk
      exact ⟨hne "DO", hne "END"⟩
  | character text => simp [Neutral, word]
  | string text => simp [Neutral, word]

theorem forall_mem_moreParameters {P : Token → Prop} {names : List String} (hc : P (mark ","))
    (h : ∀ name ∈ names, P (word name)) : ∀ token ∈ moreParameters names, P token := by
  induction names with
  | nil => simp [moreParameters]
  | cons name names ih =>
      rw [List.forall_mem_cons] at h
      simp only [moreParameters, List.forall_mem_cons]
      exact ⟨hc, h.1, ih h.2⟩

/-- Parameters are written with three marks and their names. -/
theorem forall_mem_parameters {P : Token → Prop} {names : List String}
    (hm : ∀ text ∈ ["(", ",", ")"], P (mark text)) (h : ∀ name ∈ names, P (word name)) :
    ∀ token ∈ parameters names, P token := by
  simp only [List.forall_mem_cons] at hm
  obtain ⟨hopen, hcomma, hclose, hnil⟩ := hm
  have hlast : ∀ token ∈ [mark ")"], P token := List.forall_mem_singleton.mpr hclose
  cases names with
  | nil => exact List.forall_mem_cons.mpr ⟨hopen, hlast⟩
  | cons name names =>
      rw [List.forall_mem_cons] at h
      simp only [parameters, List.forall_mem_cons, List.forall_mem_append]
      exact ⟨hopen, h.1, forall_mem_moreParameters hcomma h.2, List.forall_mem_cons.mp hlast⟩

theorem balanced_parameters {names : List String} (h : ∀ name ∈ names, IsFree name) :
    Balanced (parameters names) :=
  .of_neutral <| forall_mem_parameters (fun text _ => neutral_mark text) fun name hname =>
    neutral_word (h name hname)

theorem balanced_objectName {name : Option String} (h : ∀ text ∈ name.toList, IsFree text) :
    Balanced (objectName name) :=
  .of_neutral <| List.forall_mem_map.mpr fun text ht => neutral_word (h text ht)

/-- The two bodies of a branch stand in one block. -/
theorem balanced_else {ts es : List Token} (h : Balanced ts) (h' : Balanced es) :
    Balanced (ts ++ word "ELSE" :: es) :=
  h.append (h'.cons (by decide))

/-- A phrase closes the blocks that it opens, and no others. -/
theorem Derives.balanced (h : Derives symbol ts tree) (hn : ∀ name ∈ symbol.names tree, IsFree name) :
    Balanced ts := by
  induction h <;> simp only [List.forall_mem_append, List.forall_mem_cons, Symbol.names, namesOfStmts,
    Stmt.names, Declaration.names, Definition.names, namesOfOption, names_applyOperands,
    names_applySuffixes, List.flatMap_cons, suffixNames, namesOfExprs, Expr.names, memberNames] at hn
  case noStatement => exact .nil
  case statements ihf ihr => exact (ihf hn.1).append (ihr hn.2)
  case declare ih => exact ih hn
  case define ih => exact ih hn
  case branch ihc iht => exact .cons (by decide) ((ihc hn.1).append (iht hn.2.1).block)
  case branchElse ihc iht ihe =>
    have hblock := (balanced_else (iht hn.2.1) (ihe hn.2.2)).block
    rw [List.append_assoc, List.cons_append] at hblock
    exact .cons (by decide) ((ihc hn.1).append hblock)
  case loop ihi ihb =>
    exact .cons (by decide) (.cons (neutral_word hn.1) (.cons (by decide)
      ((ihi hn.2.1).append (ihb hn.2.2).block)))
  case ret ih => exact .cons (by decide) ((ih hn).append (.single (neutral_mark ";")))
  case retIf ihv ihc =>
    exact .cons (by decide) ((ihv hn.2.1.1).append (.cons (by decide)
      ((ihc hn.1).append (.single (neutral_mark ";")))))
  case perform ih => exact (ih hn).append (.single (neutral_mark ";"))
  case assign iht ihv =>
    exact (iht hn.1).append (.cons (neutral_mark "=") ((ihv hn.2).append (.single (neutral_mark ";"))))
  case letBare => exact .cons (by decide) (.cons (neutral_word hn.1) (.single (neutral_mark ";")))
  case letValue ih =>
    exact .cons (by decide) (.cons (neutral_word hn.1) (.cons (neutral_mark "=")
      ((ih hn.2).append (.single (neutral_mark ";")))))
  case definition ih =>
    exact .cons (by decide) (.cons (neutral_word hn.1)
      ((balanced_parameters hn.2.1).append (ih hn.2.2).block))
  case noValue => exact .nil
  case value ih => exact ih hn
  case chain ihf ihi => exact (ihf hn.1).append (ihi hn.2)
  case noOperand => exact .nil
  case operands hs _ _ ihr ihi =>
    exact .cons (neutral_operatorToken hs) ((ihr hn.1).append (ihi hn.2))
  case secondary ihp ihi => exact (ihp hn.1).append (ihi hn.2)
  case noSuffix => exact .nil
  case property ih => exact .cons (neutral_mark ".") (.cons (neutral_word hn.1.1) (ih hn.2))
  case method iha ihi =>
    exact .cons (neutral_mark ".") (.cons (neutral_word hn.1.1) ((iha hn.1.2).append (ihi hn.2)))
  case noArgument => exact .cons (neutral_mark "(") (.single (neutral_mark ")"))
  case arguments ihf ihm =>
    exact .cons (neutral_mark "(") ((ihf hn.1).append ((ihm hn.2).append (.single (neutral_mark ")"))))
  case noMoreArgument => exact .nil
  case moreArguments ihf ihm => exact .cons (neutral_mark ",") ((ihf hn.1).append (ihm hn.2))
  case literal hd => exact .single hd.neutral
  case group ih => exact .cons (neutral_mark "(") ((ih hn).append (.single (neutral_mark ")")))
  case object ih =>
    exact .cons (by decide) ((balanced_objectName hn.1).append
      (ih (forall_mem_memberNames hn.2.1 hn.2.2)).block)
  case call ih => exact .cons (neutral_word hn.1) (ih hn.2)
  case name => exact .single (neutral_word hn.1)
  case noMember => exact .nil
  case field ihd ihi => exact (ihd hn.1).append (ihi hn.2)
  case ownMethod ihd ihi => exact (ihd hn.1).append (ihi hn.2)

end Phrases

end ProtoScript.Grammar
