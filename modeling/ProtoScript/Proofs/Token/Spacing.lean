import ProtoScript.Proofs.Numeral
import ProtoScript.Proofs.Token.Exact

/-!
# Tokens between white space

A token is cut off as it is if white space follows, or nothing. Only quoted literals hold white space,
and none of them is the front of another. No token holds a line end, so a source can be cut up line by
line.
-/

namespace ProtoScript.Token
open Scan

/-- Nothing, or white space first. -/
def Parted (rest : List Char) : Prop :=
  rest = [] ∨ startsIn [isSpace] rest = true

/-- The class holds no white space. -/
abbrev Solid (inClass : Char → Bool) : Prop :=
  inClass ' ' = false ∧ inClass '\x08' = false ∧ inClass '\n' = false ∧ inClass '\r' = false ∧
    inClass '\t' = false

theorem Solid.not_mem {inClass : Char → Bool} (h : Solid inClass) {c : Char} (hc : isSpace c = true) :
    inClass c = false := by
  simp only [isSpace, Bool.or_eq_true, decide_eq_true_eq] at hc
  grind

/-- What follows does not go on with a class that holds no white space. -/
theorem Parted.not_startsIn {rest : List Char} (h : Parted rest) {inClass : Char → Bool}
    (hc : Solid inClass) (classes : List (Char → Bool)) :
    startsIn (inClass :: classes) rest = false := by
  rcases h with rfl | h
  · rfl
  · obtain ⟨c, tail, rfl, hs⟩ := startsIn_one h
    simp [startsIn, hc.not_mem hs]

theorem not_isNameStart_of_isDigit {c : Char} (h : isDigit c = true) :
    isNameStart c = false ∧ only '/' c = false :=
  Numeral.forall_isDigit (P := fun c => isNameStart c = false ∧ only '/' c = false) (by decide) h

theorem not_isNameStart_of_isSign {c : Char} (h : isSign c = true) :
    isNameStart c = false ∧ only '/' c = false := by
  simp only [isSign, Bool.or_eq_true, decide_eq_true_eq] at h
  rcases h with rfl | rfl <;> decide

/-- The classes that a symbol is not in. -/
theorem not_of_isSymbol {c : Char} (h : isSymbol c = true) :
    isNameStart c = false ∧ isDigit c = false ∧ only '\'' c = false ∧ only '"' c = false ∧
      isSpace c = false := by
  simpa [isSymbol, only, and_assoc] using h

section Lexeme
variable {kind other : Kind} {text more rest : List Char}

/-- What holds of the digits, the signs, the point and the exponent marks holds throughout a number. -/
theorem Number.forall_mem {P : Char → Prop} (hd : ∀ k, k < 10 → P (Nat.digitChar k))
    (ho : P '+' ∧ P '-' ∧ P '.' ∧ P 'e' ∧ P 'E') {fraction exponent : Bool}
    (h : Number fraction exponent text) : ∀ c ∈ text, P c := by
  obtain ⟨hplus, hminus, hpoint, hsmall, hlarge⟩ := ho
  have hdigits {digits : List Char} (h : Digits digits) : ∀ c ∈ digits, P c :=
    fun c hc => Numeral.forall_isDigit hd (h.all c hc)
  have hsign {sign : List Char} (h : Sign sign) : ∀ c ∈ sign, P c := by
    cases h with
    | absent => simp
    | @present c h =>
        simp only [isSign, Bool.or_eq_true, decide_eq_true_eq] at h
        rcases h with rfl | rfl <;> simpa
  obtain ⟨hs, hw, hf, he⟩ := h
  simp only [List.forall_mem_append]
  refine ⟨hsign hs, hdigits hw, ?_, ?_⟩
  · cases hf with
    | absent => simp
    | present h => exact List.forall_mem_cons.mpr ⟨hpoint, hdigits h⟩
  · cases he with
    | absent => simp
    | present hm hs h =>
        refine List.forall_mem_cons.mpr ⟨?_, List.forall_mem_append.mpr ⟨hsign hs, hdigits h⟩⟩
        simp only [isExponentMark, Bool.or_eq_true, decide_eq_true_eq] at hm
        rcases hm with rfl | rfl <;> assumption

theorem Number.head {fraction exponent : Bool} (h : Number fraction exponent text) (rest : List Char) :
    (startsIn [isSign, isDigit] (text ++ rest) || startsIn [isDigit] (text ++ rest)) = true ∧
      startsIn [isNameStart] (text ++ rest) = false ∧ startsComment (text ++ rest) = false := by
  obtain @⟨sign, whole, behind, power, hs, hw, hf, he⟩ := h
  obtain ⟨d, whole, rfl⟩ := List.exists_cons_of_ne_nil hw.nonempty
  have hd : isDigit d = true := hw.all d List.mem_cons_self
  obtain ⟨hname, hslash⟩ := not_isNameStart_of_isDigit hd
  cases hs with
  | absent => simp [startsIn, startsComment, hd, hname, hslash]
  | present hc =>
      obtain ⟨hname', hslash'⟩ := not_isNameStart_of_isSign hc
      simp [startsIn, startsComment, hd, hc, hname', hslash']

/-- A token in front of white space selects its rule. -/
theorem Lexeme.selects (h : Lexeme kind text) (hr : Parted rest) :
    formOf (text ++ rest) = kind.form ∧ startsComment (text ++ rest) = false := by
  cases h with
  | @identifier c text hc ht =>
      have hslash : only '/' c = false := by
        refine Bool.eq_false_iff.mpr fun hslash => ?_
        obtain rfl : c = '/' := by simpa [only] using hslash
        cases hc
      simp [formOf, startsComment, startsIn, hc, hslash, Kind.form]
  | integer h | decimal h =>
      obtain ⟨hstart, hname, hslash⟩ := h.head rest
      simp [formOf, hstart, hname, hslash, Kind.form]
  | character h => exact ⟨rfl, rfl⟩
  | string h => exact ⟨rfl, rfl⟩
  | @symbol c h =>
      obtain ⟨hname, hdigit, hquote, hquotes, -⟩ := not_of_isSymbol h
      have hnumber : startsIn [isDigit] rest = false := hr.not_startsIn (by decide) []
      have hslash : startsIn [only '/'] rest = false := hr.not_startsIn (by decide) []
      constructor
      · simp_all [formOf, startsIn, Kind.form]
      · change (only '/' c && startsIn [only '/'] rest) = false
        rw [hslash, Bool.and_false]
  | @relation c h =>
      simp only [isRelation, Bool.or_eq_true, decide_eq_true_eq] at h
      rcases h with ((rfl | rfl) | rfl) | rfl <;> exact ⟨rfl, rfl⟩

/-- Only quoted literals hold white space. -/
theorem Lexeme.not_isSpace (h : Lexeme kind text) (hk : kind.form ≠ .character ∧ kind.form ≠ .string) :
    ∀ c ∈ text, isSpace c = false := by
  have hno {inClass : Char → Bool} (hc : Solid inClass) {c : Char} (h : inClass c = true) :
      isSpace c = false := by
    refine Bool.eq_false_iff.mpr fun hs => ?_
    rw [hc.not_mem hs] at h
    cases h
  cases h with
  | identifier hc ht =>
      exact List.forall_mem_cons.mpr ⟨hno (by decide) hc, fun d hd => hno (by decide) (ht d hd)⟩
  | integer h | decimal h => exact h.forall_mem (by decide) (by decide)
  | character => exact absurd rfl hk.1
  | string => exact absurd rfl hk.2
  | symbol h => simpa using hno (by decide) h
  | relation h => simpa using ⟨hno (by decide) h, rfl⟩

/-- A quoted literal is read up to its second quote, whatever follows. -/
theorem Lexeme.steps_quoted (h : Lexeme kind text) (hk : kind.form = .character ∨ kind.form = .string)
    (rest : List Char) :
    Steps lexToken (.between 0 (text ++ rest)) ⟨kind, String.ofList text⟩
      (.between (0 + text.length) rest) := by
  rw [Steps, lexToken_apply]
  cases h <;> try (rcases hk with hk | hk <;> cases hk)
  case character body h =>
    simp only [List.cons_append, List.append_assoc]
    exact steps_lexCharacter h
  case string body h =>
    simp only [List.cons_append, List.append_assoc]
    exact steps_lexString h

/-- No quoted literal is the front of another one. -/
theorem Lexeme.eq_of_prefix (h : Lexeme kind text) (hm : Lexeme other more)
    (hk : kind.form = .character ∨ kind.form = .string) (ho : other.form = kind.form)
    (hp : text <+: more) : text = more := by
  obtain ⟨tail, rfl⟩ := hp
  have hone := h.steps_quoted hk tail
  have hall := hm.steps_quoted (ho ▸ hk) []
  rw [List.append_nil] at hall
  injection hone.symm.trans hall with _ hcursor
  have htail : tail = [] := congrArg Cursor.rest hcursor
  rw [htail, List.append_nil]

/-- In front of white space nothing is longer than a token that ends there. -/
theorem Lexeme.longest (h : Lexeme kind text) (hr : Parted rest) :
    Longest kind text (text ++ rest) := by
  intro other more ho hm hp
  by_cases hle : more.length ≤ text.length
  · exact hle
  have hfront : text <+: more :=
    List.prefix_of_prefix_length_le (List.prefix_append text rest) hp (by omega)
  by_cases hk : kind.form = .character ∨ kind.form = .string
  · exact Nat.le_of_eq (congrArg List.length (h.eq_of_prefix hm hk ho hfront).symm)
  · obtain ⟨tail, rfl⟩ := hfront
    have hnone := hm.not_isSpace (by rw [ho]; exact not_or.mp hk)
    -- What goes on with the text is white space, and the longer token holds none.
    have htail : tail <+: rest := (List.prefix_append_right_inj text).mp hp
    cases tail with
    | nil => simp at hle
    | cons s tail =>
        obtain ⟨rest, rfl⟩ := htail
        rcases hr with hr | hr
        · cases hr
        · have hs : isSpace s = true := by simpa [startsIn] using hr
          rw [hnone s (by simp)] at hs
          cases hs

/-- A token in front of white space is the next one. -/
theorem Lexeme.next (h : Lexeme kind text) (hr : Parted rest) :
    Next (text ++ rest) ⟨kind, String.ofList text⟩ rest := by
  obtain ⟨hform, hcomment⟩ := h.selects hr
  constructor
  · simp
  · exact hcomment
  · exact hform.symm
  · simpa [WellSpelled] using h
  · intro other more ho hm hp
    simpa using h.longest hr other more ho hm hp
  · intro _ _ _
    exact hr.not_startsIn (by decide) []

end Lexeme

/-- The texts of tokens, each followed by a blank. -/
def spaced (tokens : List Token) : List Char :=
  tokens.flatMap fun token => token.literal.toList ++ [' ']

/-- Tokens are cut off again where their texts stand apart. -/
theorem cuts_spaced {tokens : List Token} (h : ∀ token ∈ tokens, token.WellSpelled) :
    Cuts (spaced tokens) tokens [] := by
  induction tokens with
  | nil => exact .stop []
  | cons token tokens ih =>
      obtain ⟨htoken, hrest⟩ := List.forall_mem_cons.mp h
      have hparted : Parted (' ' :: spaced tokens) := .inr rfl
      have hnext := Lexeme.next htoken hparted
      rw [String.ofList_toList] at hnext
      have hcuts := Cuts.token hnext (.space rfl (ih hrest))
      simpa [spaced] using hcuts

/-- The lexer reads tokens again whose texts stand apart. -/
theorem lex_spaced {tokens : List Token} (h : ∀ token ∈ tokens, token.WellSpelled) :
    (lex (String.ofList (spaced tokens))).error = none ∧
      (lex (String.ofList (spaced tokens))).tokens = tokens :=
  lex_of_cuts (by simpa using cuts_spaced h)

section Lines
variable {source rest more : List Char} {token : Token}

/-- A line end goes on with no class that it is not in. -/
theorem startsIn_append_line {classes : List (Char → Bool)} (h : ∀ inClass ∈ classes, inClass '\n' = false)
    (source more : List Char) : startsIn classes (source ++ '\n' :: more) = startsIn classes source := by
  induction classes generalizing source with
  | nil => rfl
  | cons inClass classes ih =>
      obtain ⟨hfirst, hrest⟩ := List.forall_mem_cons.mp h
      cases source with
      | nil => simp [startsIn, hfirst]
      | cons c source => simp [startsIn, ih hrest]

theorem Piece.not_mem_line {quote : Char} {body : List Char} (h : Piece quote body) :
    '\n' ∉ body := by
  cases h with
  | plain hc =>
      intro hmem
      rw [← List.mem_singleton.mp hmem] at hc
      simp [isPlain] at hc
  | escape hc =>
      intro hmem
      rcases List.mem_cons.mp hmem with hmem | hmem
      · cases hmem
      · rw [← List.mem_singleton.mp hmem] at hc
        cases hc

theorem Pieces.not_mem_line {quote : Char} {body : List Char} (h : Pieces quote body) :
    '\n' ∉ body := by
  induction h with
  | none => simp
  | more hf _ ih =>
      rw [List.mem_append]
      exact not_or.mpr ⟨hf.not_mem_line, ih⟩

/-- No token holds a line end. -/
theorem Lexeme.not_mem_line {kind : Kind} {text : List Char} (h : Lexeme kind text) :
    '\n' ∉ text := by
  by_cases hk : kind.form ≠ .character ∧ kind.form ≠ .string
  · intro hmem
    cases h.not_isSpace hk '\n' hmem
  · cases h with
    | character h => simpa using h.not_mem_line
    | string h => simpa using h.not_mem_line
    | identifier | integer | decimal | symbol | relation => exact absurd ⟨nofun, nofun⟩ hk

theorem prefix_of_not_mem {text : List Char} {c : Char} (hc : c ∉ text)
    (h : text <+: source ++ c :: more) : text <+: source := by
  by_cases hle : text.length ≤ source.length
  · exact List.prefix_of_prefix_length_le h (List.prefix_append source _) hle
  · have hlonger : source ++ [c] <+: text := by
      refine List.prefix_of_prefix_length_le ⟨more, by simp⟩ h ?_
      simp only [List.length_append, List.length_singleton]
      omega
    exact absurd (hlonger.subset (by simp)) hc

/-- A line end changes nothing in front of it. -/
theorem Next.append_line (h : Next source token rest) (more : List Char) :
    Next (source ++ '\n' :: more) token (rest ++ '\n' :: more) := by
  have hform : formOf (source ++ '\n' :: more) = formOf source := by
    simp (disch := decide) only [formOf, startsIn_append_line]
  constructor
  · rw [h.split, List.append_assoc]
  · rw [startsComment, startsIn_append_line (by decide)]
    exact h.noComment
  · rw [hform]
    exact h.selected
  · exact h.spelled
  · intro kind text hk hl hp
    exact h.longest kind text hk hl (prefix_of_not_mem hl.not_mem_line hp)
  · intro fraction hk hn
    rw [startsIn_append_line (by decide)]
    exact h.unmarked fraction hk hn

/-- A source is cut up behind a line end as by itself. -/
theorem Cuts.append_line {left left' : List Char} {tokens tokens' : List Token}
    (h : Cuts source tokens left) (hl : left = []) (h' : Cuts more tokens' left') :
    Cuts (source ++ '\n' :: more) (tokens ++ tokens') left' := by
  induction h with
  | stop =>
      subst hl
      exact .space rfl h'
  | space hc _ ih => exact .space hc (ih hl)
  | @comment text rest tokens left ht hr _ ih =>
      have hend : rest ++ '\n' :: more = [] ∨ (rest ++ '\n' :: more).head? = some '\n' := by
        cases rest with
        | nil => exact .inr rfl
        | cons c rest => simpa using hr
      have hcut := Cuts.comment ht hend (ih hl)
      simpa using hcut
  | token ht _ ih => exact .token (ht.append_line more) (ih hl)

end Lines

end ProtoScript.Token
