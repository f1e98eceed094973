import ProtoScript.Proofs.Tree.Sound

/-!
# Decisions by the next token

How a parser runs forward on given tokens, and which tokens can come next. No expression starts like
another statement or like the end of a block, and each layer of operators knows the texts that would
go on with one of its operands.
-/

namespace ProtoScript.Grammar
open ProtoScript.Parser

variable {α β : Type}

/-- `p` turns `ts` into `a` and leaves `rest`. -/
def Runs (p : Parse α) (ts : List Token) (a : α) (rest : List Token) : Prop :=
  p ts = .ok (a, rest)

/-- The next token, if there is one, is not spelled `text`. -/
def Avoids (text : String) (ts : List Token) : Prop :=
  ts.head?.any (·.literal = text) = false

theorem avoids_cons {text : String} {token : Token} {rest : List Token} :
    Avoids text (token :: rest) ↔ token.literal ≠ text := by
  simp [Avoids]

namespace Runs
variable {ts us rest : List Token} {b : β}

theorem pure {a : α} : Runs (Pure.pure a) ts a ts :=
  rfl

theorem bind {p : Parse α} {f : α → Parse β} {a : α} (h : Runs p ts a us)
    (h' : Runs (f a) us b rest) : Runs (p >>= f) ts b rest := by
  simp only [Runs] at h h'
  simp only [Runs, Bind.bind, StateT.bind, h, Except.bind, h']

theorem map {p : Parse α} {g : α → β} {a : α} (h : Runs p ts a rest) :
    Runs (g <$> p) ts (g a) rest := by
  rw [map_eq_pure_bind]
  exact h.bind .pure

theorem seen (token : Token) {f : Bool → Parse β} (h : Runs (f true) (token :: us) b rest) :
    Runs (looksAt token.literal >>= f) (token :: us) b rest := by
  have hl : Runs (looksAt token.literal) (token :: us) true (token :: us) := by
    change Except.ok (decide (token.literal = token.literal), token :: us) = _
    simp
  exact hl.bind h

theorem unseen {text : String} {f : Bool → Parse β} (ha : Avoids text ts)
    (h : Runs (f false) ts b rest) : Runs (looksAt text >>= f) ts b rest := by
  have hl : Runs (looksAt text) ts false ts := by
    change Except.ok (ts.head?.any (·.literal = text), ts) = _
    rw [ha]
  exact hl.bind h

theorem accept (token : Token) {f : Bool → Parse β} (h : Runs (f true) us b rest) :
    Runs (Parser.accept token.literal >>= f) (token :: us) b rest := by
  have ha : Runs (Parser.accept token.literal) (token :: us) true us := by
    rw [Runs, accept_apply]
    simp
  exact ha.bind h

theorem skip {text : String} {f : Bool → Parse β} (ha : Avoids text ts)
    (h : Runs (f false) ts b rest) : Runs (Parser.accept text >>= f) ts b rest := by
  have hs : Runs (Parser.accept text) ts false ts := by
    rw [Runs, accept_apply, ha]
    rfl
  exact hs.bind h

theorem expect (token : Token) {f : Unit → Parse β} (h : Runs (f ()) us b rest) :
    Runs (Parser.expect token.literal >>= f) (token :: us) b rest := by
  have he : Runs (Parser.expect token.literal) (token :: us) () us := .accept token .pure
  exact he.bind h

theorem name {role : NameRole} {name : String} {f : String → Parse β}
    (h : Runs (f name) us b rest) : Runs (expectName role >>= f) (word name :: us) b rest := by
  have hn : Runs (expectName role) (word name :: us) name us := rfl
  exact hn.bind h

end Runs

/-- The first token is spelled like none of the texts. -/
def Opens (texts : List String) (ts : List Token) : Prop :=
  ∃ token rest, ts = token :: rest ∧ token.literal ∉ texts

/-- There is no token, or the first one is spelled like one of the texts. -/
def Leads (texts : List String) (ts : List Token) : Prop :=
  ts = [] ∨ ∃ token rest, ts = token :: rest ∧ token.literal ∈ texts

/-- The next token, if there is one, is spelled like none of the texts. -/
def Ends (texts : List String) (rest : List Token) : Prop :=
  ∀ text ∈ texts, Avoids text rest

theorem Opens.avoids {texts : List String} {ts : List Token} (h : Opens texts ts) {text : String}
    (ht : text ∈ texts) (rest : List Token) : Avoids text (ts ++ rest) := by
  obtain ⟨token, us, rfl, hn⟩ := h
  refine avoids_cons.mpr ?_
  rintro rfl
  exact hn ht

theorem Opens.append {texts fewer : List String} {ts : List Token} (h : Opens texts ts)
    (hf : fewer ⊆ texts) (rest : List Token) : Opens fewer (ts ++ rest) := by
  obtain ⟨token, us, rfl, hn⟩ := h
  exact ⟨token, us ++ rest, rfl, fun ht => hn (hf ht)⟩

theorem Ends.mono {texts more : List String} {rest : List Token} (h : Ends more rest)
    (hm : texts ⊆ more) : Ends texts rest :=
  fun text ht => h text (hm ht)

theorem ends_nil (texts : List String) : Ends texts [] :=
  fun _ _ => rfl

theorem ends_cons {texts : List String} {token : Token} (h : token.literal ∉ texts)
    (rest : List Token) : Ends texts (token :: rest) := by
  intro text ht
  refine avoids_cons.mpr ?_
  rintro rfl
  exact h ht

theorem Leads.ends {texts stops : List String} {ts rest : List Token} (h : Leads texts ts)
    (hd : ∀ text ∈ texts, text ∉ stops) (hr : Ends stops rest) : Ends stops (ts ++ rest) := by
  rcases h with rfl | ⟨token, us, rfl, ht⟩
  · exact hr
  · exact ends_cons (hd _ ht) (us ++ rest)

/-- The texts that no expression starts with. -/
def reserved : List String :=
  ["LET", "DEF", "IF", "FOR", "RETURN", "ELSE", "END", ";", ")"]

/-- Only names are spelled like keywords. -/
theorem not_mem_keywords {token : Token} (ht : token.Shaped) (hk : token.kind ≠ .identifier) :
    token.literal ∉ keywords := by
  intro h
  have hterm : ∀ text ∈ keywords, Terminal (word text) := by decide
  exact hk (congrArg Token.kind ((hterm _ h).eq ht rfl))

/-- A token that is neither a keyword nor a symbol can start an expression. -/
theorem not_mem_reserved {token : Token} (ht : token.Shaped) (hn : token.literal ∉ keywords)
    (hk : token.kind ≠ .operator) : token.literal ∉ reserved := by
  intro h
  have hsplit : ∀ text ∈ reserved, text ∈ keywords ∨ Terminal (mark text) := by decide
  rcases hsplit _ h with h | h
  · exact hn h
  · exact hk (congrArg Token.kind (h.eq ht rfl))

/-- The texts that would go on with an operand. -/
def after : Option Layer → List String
  | none => [".", "("]
  | some .multiplicative => ["*", "/", ".", "("]
  | some .additive => ["+", "-", "*", "/", ".", "("]
  | some .comparison => ["<", "<=", ">", ">=", "==", "!=", "+", "-", "*", "/", ".", "("]
  | some .logical =>
      ["AND", "OR", "<", "<=", ">", ">=", "==", "!=", "+", "-", "*", "/", ".", "("]

theorem after_tighter (layer : Layer) : after layer.tighter ⊆ after (some layer) := by
  cases layer <;> decide

theorem symbols_subset_after (layer : Layer) : layer.symbols ⊆ after (some layer) := by
  cases layer <;> decide

theorem not_mem_after_tighter (layer : Layer) :
    ∀ symbol ∈ layer.symbols, symbol ∉ after layer.tighter := by
  cases layer <;> decide

/-- How many rules an operand enters before its first token. -/
def depth : Option Layer → Nat
  | none => 2
  | some .multiplicative => 3
  | some .additive => 4
  | some .comparison => 5
  | some .logical => 6

theorem depth_tighter (layer : Layer) : depth layer.tighter + 1 = depth (some layer) := by
  cases layer <;> rfl

theorem depth_bounds (level : Option Layer) : 2 ≤ depth level ∧ depth level ≤ 6 := by
  rcases level with _ | (_ | _ | _ | _) <;> decide

end ProtoScript.Grammar
