import ProtoScript.Proofs.Token.Shift
import ProtoScript.Proofs.Token.Spacing

/-!
# Cutting a source in two where a token starts

The lexer decides about a token by the characters of the token and by the next ones, and it starts afresh
behind every token. So a source can be cut where a token starts. Its front is read up to the cut, to the
tokens in front of it. What is behind the cut is read as by itself, with all offsets counted from the cut.
-/

namespace ProtoScript.Token
open Scan

/-- A token in front of what has been read. -/
def Lexing.cons (token : Token) (offset : Nat) (later : Lexing) : Lexing :=
  { later with tokens := token :: later.tokens, offsets := offset :: later.offsets }

section Next
variable {source rest : List Char} {token : Token}

/-- Where a token comes next, the source goes on, and not with white space. -/
theorem Next.startsToken (h : Next source token rest) :
    source ≠ [] ∧ startsIn [isSpace] source = false := by
  obtain ⟨c, tail, rfl, hc⟩ := h.head
  exact ⟨List.cons_ne_nil c tail, by simp [startsIn, hc]⟩

theorem Next.length_lt (h : Next source token rest) : rest.length < source.length := by
  obtain ⟨c, tail, ht, -⟩ := h.spelled.head
  rw [h.split, ht, List.length_append, List.length_cons]
  omega

/-- The rule for operators is selected where no other one is. -/
theorem formOf_eq_operator_iff : formOf source = .operator ↔
    startsIn [isNameStart] source = false ∧ startsIn [isSign, isDigit] source = false ∧
      startsIn [isDigit] source = false ∧ startsIn [only '\''] source = false ∧
      startsIn [only '"'] source = false := by
  grind [formOf]

/-- A token that is no operator selects its rule, whatever follows. -/
theorem Lexeme.formOf_append {kind : Kind} {text : List Char} (h : Lexeme kind text)
    (hk : kind ≠ .operator) (rest : List Char) : formOf (text ++ rest) = kind.form := by
  cases h with
  | identifier hc _ => simp [formOf, startsIn, hc, Kind.form]
  | integer h | decimal h =>
      obtain ⟨hstart, hname, -⟩ := h.head rest
      simp [formOf, hstart, hname, Kind.form]
  | character | string => rfl
  | symbol | relation => exact absurd rfl hk

/-- The rest of a source has no say in a token, as far as it is not looked at. -/
theorem Next.truncate (more : List Char) (h : Next source token (rest ++ more)) :
    Next (token.literal.toList ++ rest) token rest := by
  have hsource : source = token.literal.toList ++ rest ++ more := by
    rw [List.append_assoc]
    exact h.split
  -- What the shorter source starts with, the longer one starts with.
  have hstarts {classes : List (Char → Bool)} (hs : startsIn classes source = false) :
      startsIn classes (token.literal.toList ++ rest) = false := by
    refine Bool.eq_false_iff.mpr fun hshort => ?_
    have hlong := startsIn_append hshort more
    rw [← hsource, hs] at hlong
    cases hlong
  constructor
  · rfl
  · exact hstarts h.noComment
  · by_cases hk : token.kind = .operator
    · have hform : formOf source = .operator := by rw [← h.selected, hk, Kind.form]
      obtain ⟨hname, hsigned, hdigit, hquote, hquotes⟩ := formOf_eq_operator_iff.mp hform
      rw [hk, Kind.form, eq_comm, formOf_eq_operator_iff]
      exact ⟨hstarts hname, hstarts hsigned, hstarts hdigit, hstarts hquote, hstarts hquotes⟩
    · exact (h.spelled.formOf_append hk rest).symm
  · exact h.spelled
  · intro kind text hk hl hp
    refine h.longest kind text hk hl (hsource ▸ hp.trans (List.prefix_append _ _))
  · intro fraction hk hn
    have hmark := h.unmarked fraction hk hn
    refine Bool.eq_false_iff.mpr fun hshort => ?_
    rw [startsIn_append hshort more] at hmark
    cases hmark

end Next

section Steps
variable {index : Nat} {source rest : List Char}

/-- With room for every character, it does not matter how much room there is. -/
theorem lexLoop_eq_lexFrom {room : Nat} (hr : source.length ≤ room) :
    lexLoop room (.between index source) = lexFrom (.between index source) := by
  refine lexLoop_induction (P := fun index source lexing =>
    ∀ room, source.length ≤ room → lexLoop room (.between index source) = lexing) ?_ ?_ ?_ ?_ ?_
    (Nat.le_refl _) room hr
  · intro index room _
    cases room <;> rfl
  · intro index gap rest lexing hne hgap hstop h room hroom
    obtain ⟨c, gap, rfl⟩ := List.exists_cons_of_ne_nil hne
    simp only [List.cons_append, List.length_cons, List.length_append] at hroom
    obtain ⟨room, rfl⟩ : ∃ n, room = n + 1 := ⟨room - 1, by omega⟩
    have hspace : startsIn [isSpace] (c :: gap ++ rest) = true := by
      simp [startsIn, hgap c List.mem_cons_self]
    rw [lexLoop_of_space hspace (steps_lexSpace hgap hstop)]
    exact h room (by omega)
  · intro index text rest lexing ht hend h room hroom
    simp only [List.length_cons, List.length_append] at hroom
    obtain ⟨room, rfl⟩ : ∃ n, room = n + 1 := ⟨room - 1, by omega⟩
    rw [lexLoop_of_comment rfl rfl (steps_lexComment ht hend)]
    exact h room (by omega)
  · intro index source token rest lexing ht h room hroom
    obtain ⟨hne, hspace⟩ := ht.startsToken
    have hlt := ht.length_lt
    obtain ⟨room, rfl⟩ : ∃ n, room = n + 1 := ⟨room - 1, by omega⟩
    rw [lexLoop_of_token hne hspace ht.noComment (ht.steps index), h room (by omega)]
    rfl
  · intro index source error cursor hstuck herror _ _ _ room hroom
    have hpos := List.length_pos_iff.mpr hstuck.nonempty
    obtain ⟨room, rfl⟩ : ∃ n, room = n + 1 := ⟨room - 1, by omega⟩
    exact lexLoop_of_error hstuck.nonempty hstuck.noSpace hstuck.noComment herror

/-- The lexer skips white space. It does so in one go, also where it is cut. -/
theorem lexFrom_spaces {gap : List Char} (hg : ∀ c ∈ gap, isSpace c = true) (index : Nat)
    (rest : List Char) :
    lexFrom (.between index (gap ++ rest)) = lexFrom (.between (index + gap.length) rest) := by
  have hrun (index : Nat) {run rest : List Char} (hall : ∀ c ∈ run, isSpace c = true)
      (hstop : startsIn [isSpace] rest = false) :
      lexFrom (.between index (run ++ rest)) = lexFrom (.between (index + run.length) rest) := by
    cases run with
    | nil => rfl
    | cons c run =>
        have hspace : startsIn [isSpace] (c :: run ++ rest) = true := by
          simp [startsIn, hall c List.mem_cons_self]
        refine (lexLoop_of_space hspace (steps_lexSpace hall hstop)).trans ?_
        exact lexLoop_eq_lexFrom (by simp)
  obtain ⟨run, rest, rfl, hall, hstop⟩ := exists_run isSpace rest
  rw [hrun (index + gap.length) hall hstop, ← List.append_assoc,
    hrun index (List.forall_mem_append.mpr ⟨hg, hall⟩) hstop, List.length_append, Nat.add_assoc]

theorem lexFrom_comment {text : List Char} (ht : '\n' ∉ text)
    (hr : rest = [] ∨ rest.head? = some '\n') (index : Nat) :
    lexFrom (.between index ('/' :: '/' :: (text ++ rest))) =
      lexFrom (.between (index + ('/' :: '/' :: text).length) rest) := by
  refine (lexLoop_of_comment rfl rfl (steps_lexComment ht hr)).trans ?_
  exact lexLoop_eq_lexFrom (by simp only [List.length_cons, List.length_append]; omega)

theorem Next.lexFrom_eq {token : Token} (h : Next source token rest) (index : Nat) :
    lexFrom (.between index source) =
      (lexFrom (.between (index + token.literal.toList.length) rest)).cons token index := by
  obtain ⟨hne, hspace⟩ := h.startsToken
  obtain ⟨c, tail, rfl⟩ := List.exists_cons_of_ne_nil hne
  have hlt := h.length_lt
  refine (lexLoop_of_token hne hspace h.noComment (h.steps index)).trans ?_
  rw [lexLoop_eq_lexFrom (Nat.le_of_lt_succ hlt)]
  rfl

/-- Where nothing can be cut off, the lexer fails at once. -/
theorem Stuck.lexFrom_eq (h : Stuck source) (index : Nat) :
    ∃ error cursor, lexFrom (.between index source) = ⟨[], [index], some error, cursor⟩ := by
  obtain ⟨c, tail, rfl⟩ := List.exists_cons_of_ne_nil h.nonempty
  rcases lexToken_cases index h.nonempty h.noSpace h.noComment with ⟨token, rest, ht⟩ | hbreak
  · exact absurd ht (h.noToken token rest)
  · obtain ⟨error, cursor, herror, -⟩ := hbreak
    exact ⟨error, cursor, lexLoop_of_error h.nonempty h.noSpace h.noComment herror⟩

end Steps

/-- Reading `source` from `index` on can be cut in front of token number `k`, which starts at `offset`: what
is `before` is read to the tokens up to there, and `rest` to the others. -/
structure Split (index : Nat) (source : List Char) (k offset : Nat) (before rest : List Char) : Prop where
  source_eq : source = before ++ rest
  offset_eq : offset = index + before.length
  count : k ≤ (lexFrom (.between index source)).tokens.length
  front : lexFrom (.between index before) =
    { tokens := (lexFrom (.between index source)).tokens.take k
      offsets := (lexFrom (.between index source)).offsets.take k
      error := none
      cursor := .between offset [] }
  back : lexFrom (.between offset rest) =
    { lexFrom (.between index source) with
      tokens := (lexFrom (.between index source)).tokens.drop k
      offsets := (lexFrom (.between index source)).offsets.drop k }

namespace Split
variable {index k offset : Nat} {source before rest left : List Char}

/-- The first cut is in front of everything. -/
theorem zero (index : Nat) (source : List Char) : Split index source 0 index [] source where
  source_eq := rfl
  offset_eq := rfl
  count := Nat.zero_le _
  front := rfl
  back := rfl

/-- What is skipped in front of both parts is skipped in front of the first one. -/
theorem behind (gap : List Char) (h : Split (index + gap.length) source k offset before rest)
    (hsource : lexFrom (.between index (gap ++ source)) = lexFrom (.between (index + gap.length) source))
    (hbefore : lexFrom (.between index (gap ++ before)) = lexFrom (.between (index + gap.length) before)) :
    Split index (gap ++ source) k offset (gap ++ before) rest where
  source_eq := by rw [h.source_eq, List.append_assoc]
  offset_eq := by rw [h.offset_eq, List.length_append, Nat.add_assoc]
  count := hsource ▸ h.count
  front := by rw [hbefore, hsource, h.front]
  back := by rw [hsource, h.back]

/-- A token in front of both parts is the first one of the first part. -/
theorem cons {token : Token} (ht : Next left token source)
    (h : Split (index + token.literal.toList.length) source k offset before rest) :
    Split index left (k + 1) offset (token.literal.toList ++ before) rest where
  source_eq := by rw [ht.split, h.source_eq, List.append_assoc]
  offset_eq := by rw [h.offset_eq, List.length_append, Nat.add_assoc]
  count := by
    rw [ht.lexFrom_eq]
    exact Nat.succ_le_succ h.count
  front := by
    have hbefore : Next (token.literal.toList ++ before) token before :=
      Next.truncate rest (h.source_eq ▸ ht)
    rw [hbefore.lexFrom_eq, ht.lexFrom_eq, h.front]
    rfl
  back := by
    rw [ht.lexFrom_eq, h.back]
    rfl

end Split

/-- A source can be cut in front of each token that the lexer comes to. -/
theorem Cuts.split {source left : List Char} {tokens : List Token} (h : Cuts source tokens left)
    (hl : left = [] ∨ Stuck left) {index k offset : Nat}
    (ho : (lexFrom (.between index source)).offsets[k]? = some offset) :
    ∃ before rest, Split index source k offset before rest := by
  induction h generalizing index k with
  | stop left =>
      rcases hl with rfl | hl
      · cases ho
      · obtain ⟨error, cursor, heq⟩ := hl.lexFrom_eq index
        rw [heq] at ho
        obtain ⟨rfl, rfl⟩ : k = 0 ∧ index = offset := by
          cases k with
          | zero => exact ⟨rfl, by simpa using ho⟩
          | succ k => cases ho
        exact ⟨[], left, .zero index left⟩
  | @space c rest tokens left hc _ ih =>
      have hspace : ∀ d ∈ [c], isSpace d = true := by simpa using hc
      have hskip := lexFrom_spaces hspace index
      rw [← List.singleton_append, hskip] at ho
      obtain ⟨before, rest, h⟩ := ih hl ho
      exact ⟨_, _, h.behind [c] (hskip _) (hskip _)⟩
  | @comment text rest tokens left ht hr _ ih =>
      have hskip := lexFrom_comment ht hr index
      rw [hskip] at ho
      obtain ⟨before, rest, h⟩ := ih hl ho
      have hend : before = [] ∨ before.head? = some '\n' := by
        rw [h.source_eq] at hr
        cases before with
        | nil => exact .inl rfl
        | cons c before => exact .inr (by simpa using hr)
      exact ⟨_, _, h.behind ('/' :: '/' :: text) hskip (lexFrom_comment ht hend index)⟩
  | @token source rest token tokens left ht _ ih =>
      rw [ht.lexFrom_eq] at ho
      cases k with
      | zero =>
          obtain rfl : index = offset := by simpa [Lexing.cons] using ho
          exact ⟨[], source, .zero index source⟩
      | succ k =>
          obtain ⟨before, rest, h⟩ := ih hl ho
          exact ⟨_, _, h.cons ht⟩

/-- Every source is cut up, or up to where nothing can be cut off. -/
theorem exists_cuts (source : List Char) :
    ∃ tokens left, Cuts source tokens left ∧ (left = [] ∨ Stuck left) := by
  have hsettled : Settled 0 source (lexFrom (.between 0 source)) := settled_lexLoop (Nat.le_refl _)
  cases hsettled with
  | read hc _ => exact ⟨_, _, hc, .inl rfl⟩
  | failed _ _ hc hl => exact ⟨_, _, hc, .inr hl⟩

/-- Each token that the lexer reads is the next one where it starts. -/
theorem Cuts.next_of_mem {source left : List Char} {tokens : List Token} (h : Cuts source tokens left)
    (hl : left = [] ∨ Stuck left) {index : Nat} {token : Token} {offset : Nat}
    (hm : (token, offset) ∈ (lexFrom (.between index source)).tokens.zip
      (lexFrom (.between index source)).offsets) :
    ∃ before rest after, source = before ++ rest ∧ offset = index + before.length ∧
      Next rest token after := by
  induction h generalizing index with
  | stop left =>
      rcases hl with rfl | hl
      · cases hm
      · obtain ⟨error, cursor, heq⟩ := hl.lexFrom_eq index
        rw [heq] at hm
        cases hm
  | @space c rest tokens left hc _ ih =>
      have hspace : ∀ d ∈ [c], isSpace d = true := by simpa using hc
      rw [← List.singleton_append, lexFrom_spaces hspace] at hm
      obtain ⟨before, rest, after, rfl, rfl, hnext⟩ := ih hl hm
      exact ⟨c :: before, rest, after, rfl, by simp [Nat.add_assoc, Nat.add_comm 1], hnext⟩
  | @comment text rest tokens left ht hr _ ih =>
      rw [lexFrom_comment ht hr] at hm
      obtain ⟨before, rest, after, rfl, rfl, hnext⟩ := ih hl hm
      refine ⟨'/' :: '/' :: (text ++ before), rest, after, by simp, ?_, hnext⟩
      simp only [List.length_cons, List.length_append]
      omega
  | @token source rest first tokens left ht _ ih =>
      rw [ht.lexFrom_eq, Lexing.cons, List.zip_cons_cons, List.mem_cons] at hm
      rcases hm with hm | hm
      · cases hm
        exact ⟨[], source, rest, rfl, rfl, ht⟩
      · obtain ⟨before, rest, after, rfl, rfl, hnext⟩ := ih hl hm
        refine ⟨first.literal.toList ++ before, rest, after, ?_, ?_, hnext⟩
        · rw [ht.split, List.append_assoc]
        · rw [List.length_append, Nat.add_assoc]

theorem lex_ofList (source : List Char) : lex (String.ofList source) = lexFrom (.between 0 source) := by
  rw [lex, Cursor.start, String.toList_ofList]
  rfl

/-- A source that is one token is read as that token. -/
theorem lex_of_wellSpelled {token : Token} (h : token.WellSpelled) :
    (lex token.literal).error = none ∧ (lex token.literal).tokens = [token] ∧
      (lex token.literal).offsets = [0] := by
  have hnext := Lexeme.next h (.inl rfl)
  rw [String.ofList_toList, List.append_nil] at hnext
  have hlex : lex token.literal = lexFrom (.between 0 token.literal.toList) := rfl
  rw [hlex, hnext.lexFrom_eq]
  exact ⟨rfl, rfl, rfl⟩

theorem WellSpelled.shaped {token : Token} (h : token.WellSpelled) : token.Shaped := by
  refine Emitted.shaped ⟨token.literal, ?_⟩
  rw [(lex_of_wellSpelled h).2.1]
  exact List.mem_singleton_self token

/-- A source can be cut where the lexer finds the start of a token, also of one at which it fails. What is
in front of the cut is read to the tokens found there, and what is behind it to the others: with the same
offsets, and with the same failure if there is one, counted from the cut. -/
theorem lex_splits_at_tokens {source : String} {k o : Nat} (h : (lex source).offsets[k]? = some o) :
    let front := lex (String.ofList (source.toList.take o))
    let back := lex (String.ofList (source.toList.drop o))
    (front.error = none ∧ front.tokens = (lex source).tokens.take k ∧ front.tokens.length = k ∧
      front.offsets = (lex source).offsets.take k) ∧
    (lex source).tokens.drop k = back.tokens ∧
      (lex source).offsets.drop k = back.offsets.map (· + o) ∧
      (lex source).error = back.error.map fun e => { e with offset := e.offset + o } := by
  have hwhole : lex source = lexFrom (.between 0 source.toList) := rfl
  rw [hwhole] at h ⊢
  obtain ⟨tokens, left, hcuts, hleft⟩ := exists_cuts source.toList
  obtain ⟨before, rest, hsplit⟩ := hcuts.split hleft h
  have ho : o = before.length := by rw [hsplit.offset_eq, Nat.zero_add]
  have htake : source.toList.take o = before := by rw [hsplit.source_eq, ho, List.take_left]
  have hdrop : source.toList.drop o = rest := by rw [hsplit.source_eq, ho, List.drop_left]
  -- The rest is read behind the cut as by itself, moved by the cut.
  have hmoved : Cursor.between o rest = (Cursor.between 0 rest).shift o := by
    simp [Cursor.between, Cursor.shift]
  have hback := hsplit.back
  rw [hmoved, lexFrom, lexLoop_shift] at hback
  change (lexFrom (.between 0 rest)).shift o = _ at hback
  simp only [htake, hdrop, lex_ofList, hsplit.front]
  refine ⟨⟨trivial, trivial, ?_, trivial⟩, ?_, ?_, ?_⟩
  · rw [List.length_take, Nat.min_eq_left hsplit.count]
  · exact (congrArg Lexing.tokens hback).symm
  · exact (congrArg Lexing.offsets hback).symm
  · exact (congrArg Lexing.error hback).symm

/-- The source is cut in front of the number whose exponent has no digits. -/
theorem lex_splits_at_tokens_failure :
    let source := "x<= //\"\n'/' 1e+;"
    (lex source).offsets[3]? = some 12 ∧
      (lex "x<= //\"\n'/' ").tokens = (lex source).tokens.take 3 ∧
      (lex source).error = (lex "1e+;").error.map fun e => { e with offset := e.offset + 12 } := by
  intro source
  have h : (lex source).offsets[3]? = some 12 := by decide
  have hfront : String.ofList (source.toList.take 12) = "x<= //\"\n'/' " := by decide
  have hback : String.ofList (source.toList.drop 12) = "1e+;" := by decide
  have hsplit := lex_splits_at_tokens h
  rw [hfront, hback] at hsplit
  obtain ⟨⟨-, htokens, -⟩, -, -, herror⟩ := hsplit
  exact ⟨h, htokens, herror⟩

end ProtoScript.Token
