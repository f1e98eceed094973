import ProtoScript.Proofs.Token.Exact

/-!
# Where the tokens of a source stand

The lexer keeps the offset at which each token starts. Together with the texts of the tokens the offsets
tell every character of a source apart: it belongs to one token, or to a gap between two of them, in front
of the first or behind the last. Gaps are made of white space and comments. If the lexer fails, the same
holds up to the start of the token at which it fails.
-/

namespace ProtoScript.Token
open Scan

/-- The text is made of white space and of comments, each of which goes up to the end of its line or of
the source. `rest` is what follows. -/
inductive Gap (rest : List Char) : (text : List Char) → Prop
  | nil : Gap rest []
  | space {c : Char} {text : List Char} (hc : c ∈ [' ', '\x08', '\n', '\r', '\t'])
      (h : Gap rest text) : Gap rest (c :: text)
  | comment {body text : List Char} (hb : '\n' ∉ body)
      (hend : text ++ rest = [] ∨ (text ++ rest).head? = some '\n') (h : Gap rest text) :
      Gap rest ('/' :: '/' :: (body ++ text))

/-- The gaps between `start` and `stop`: one in front of each token, and one behind the last. -/
def gaps (start stop : Nat) : List Token → List Nat → List (Nat × Nat)
  | token :: tokens, offset :: offsets =>
      (start, offset) :: gaps (offset + token.literal.length) stop tokens offsets
  | _, _ => [(start, stop)]

/-- The tokens stand at the offsets, and nothing but gaps stands between them, from `start` up to `stop`. -/
structure Laid (source : List Char) (start stop : Nat) (tokens : List Token) (offsets : List Nat) :
    Prop where
  count : offsets.length = tokens.length
  increasing : offsets.Pairwise (· < ·)
  literal : ∀ pair ∈ tokens.zip offsets, pair.1.literal ≠ "" ∧
    source.extract pair.2 (pair.2 + pair.1.literal.length) = pair.1.literal.toList
  /-- As gaps do not end before they start, tokens do not overlap. -/
  gap : ∀ pair ∈ gaps start stop tokens offsets, pair.1 ≤ pair.2 ∧
    Gap (source.drop pair.2) (source.extract pair.1 pair.2)
  covered : ∀ i, start ≤ i → i < stop →
    (∃ pair ∈ tokens.zip offsets, pair.2 ≤ i ∧ i < pair.2 + pair.1.literal.length) ∨
      ∃ pair ∈ gaps start stop tokens offsets, pair.1 ≤ i ∧ i < pair.2

/-- The text that starts at `index` consists of the tokens and of gaps, and `rest` follows it. -/
inductive Placed (rest : List Char) :
    (index : Nat) → (text : List Char) → (tokens : List Token) → (offsets : List Nat) → Prop
  | gap {index : Nat} {gap : List Char} (hg : Gap rest gap) : Placed rest index gap [] []
  | token {index : Nat} {gap text : List Char} {token : Token} {tokens : List Token}
      {offsets : List Nat} (hg : Gap (token.literal.toList ++ (text ++ rest)) gap)
      (hne : token.literal ≠ "")
      (h : Placed rest (index + gap.length + token.literal.length) text tokens offsets) :
      Placed rest index (gap ++ (token.literal.toList ++ text)) (token :: tokens)
        ((index + gap.length) :: offsets)

section Placing
variable {rest before text : List Char} {index : Nat} {tokens : List Token} {offsets : List Nat}

theorem extract_append (before mid rest : List Char) :
    (before ++ (mid ++ rest)).extract before.length (before.length + mid.length) = mid := by
  simp [List.extract_eq_take_drop]

theorem drop_append (before mid rest : List Char) :
    (before ++ (mid ++ rest)).drop (before.length + mid.length) = rest := by
  rw [← List.append_assoc, ← List.length_append, List.drop_left]

theorem Placed.le (h : Placed rest index text tokens offsets) : ∀ offset ∈ offsets, index ≤ offset := by
  induction h with
  | gap => simp
  | token hg hne h ih =>
      refine List.forall_mem_cons.mpr ⟨Nat.le_add_right _ _, fun offset ho => ?_⟩
      have hle := ih offset ho
      omega

/-- A source without tokens is one gap. -/
theorem laid_nil {gap : List Char} (hg : Gap rest gap) :
    Laid (before ++ (gap ++ rest)) before.length (before.length + gap.length) [] [] where
  count := rfl
  increasing := .nil
  literal := by simp
  gap := by
    simp only [gaps, List.forall_mem_singleton]
    rw [drop_append, extract_append]
    exact ⟨Nat.le_add_right _ _, hg⟩
  covered i hlow hhigh := .inr ⟨_, List.mem_singleton.mpr rfl, hlow, hhigh⟩

/-- A gap and a token stand in front of what is laid out already. -/
theorem Laid.cons {source : List Char} {start offset stop : Nat} {token : Token}
    (hgap : start ≤ offset ∧ Gap (source.drop offset) (source.extract start offset))
    (hliteral : token.literal ≠ "" ∧
      source.extract offset (offset + token.literal.length) = token.literal.toList)
    (hlater : ∀ later ∈ offsets, offset < later)
    (h : Laid source (offset + token.literal.length) stop tokens offsets) :
    Laid source start stop (token :: tokens) (offset :: offsets) where
  count := congrArg (· + 1) h.count
  increasing := List.pairwise_cons.mpr ⟨hlater, h.increasing⟩
  literal := List.forall_mem_cons.mpr ⟨hliteral, h.literal⟩
  gap := List.forall_mem_cons.mpr ⟨hgap, h.gap⟩
  covered i hlow hhigh := by
    rcases Nat.lt_or_ge i offset with hi | hi
    · exact .inr ⟨_, List.mem_cons_self, hlow, hi⟩
    rcases Nat.lt_or_ge i (offset + token.literal.length) with hi' | hi'
    · exact .inl ⟨_, List.mem_cons_self, hi, hi'⟩
    rcases h.covered i hi' hhigh with ⟨pair, hp, hin⟩ | ⟨pair, hp, hin⟩
    · exact .inl ⟨pair, List.mem_cons_of_mem _ hp, hin⟩
    · exact .inr ⟨pair, List.mem_cons_of_mem _ hp, hin⟩

/-- What is placed one behind the other is laid out over the whole source. -/
theorem Placed.laid (h : Placed rest index text tokens offsets) (hb : before.length = index) :
    Laid (before ++ (text ++ rest)) index (index + text.length) tokens offsets := by
  induction h generalizing before with
  | gap hg =>
      subst hb
      exact laid_nil hg
  | @token index gap text token tokens offsets hg hne h ih =>
      subst hb
      have hlength : token.literal.toList.length = token.literal.length := String.length_toList
      have hsource : before ++ (gap ++ (token.literal.toList ++ text) ++ rest) =
          (before ++ gap) ++ (token.literal.toList ++ (text ++ rest)) := by simp
      have hstop : before.length + (gap ++ (token.literal.toList ++ text)).length =
          before.length + gap.length + token.literal.length + text.length := by
        simp only [List.length_append, hlength]
        omega
      have hpositive : 0 < token.literal.length := Nat.pos_of_ne_zero (by simpa using hne)
      rw [hsource, hstop]
      refine Laid.cons ⟨Nat.le_add_right _ _, ?_⟩ ⟨hne, ?_⟩ ?_ ?_
      · rw [List.append_assoc, extract_append, drop_append]
        exact hg
      · rw [← hlength, ← List.length_append]
        exact extract_append _ _ _
      · intro later hl
        have hle := h.le later hl
        omega
      · have hbefore : (before ++ gap ++ token.literal.toList).length =
            before.length + gap.length + token.literal.length := by
          simp only [List.length_append, hlength]
        simpa using ih hbefore

/-- A longer gap may stand in front. Whether the front makes a gap longer may depend on what follows it. -/
theorem Placed.behind {front : List Char}
    (hfront : ∀ gap next, gap ++ next = text ++ rest → Gap next gap → Gap next (front ++ gap))
    (h : Placed rest (index + front.length) text tokens offsets) :
    Placed rest index (front ++ text) tokens offsets := by
  cases h with
  | gap hg => exact .gap (hfront _ _ rfl hg)
  | @token _ gap text token tokens offsets hg hne h =>
      have hsum : index + front.length + gap.length = index + (front ++ gap).length := by
        rw [List.length_append, Nat.add_assoc]
      rw [hsum] at h ⊢
      rw [← List.append_assoc]
      exact .token (hfront _ _ (by simp) hg) hne h

theorem Gap.spaces {front : List Char} (hf : ∀ c ∈ front, isSpace c = true) (h : Gap rest text) :
    Gap rest (front ++ text) := by
  induction front with
  | nil => exact h
  | cons c front ih =>
      obtain ⟨hc, hfront⟩ := List.forall_mem_cons.mp hf
      exact .space (by simpa [isSpace, or_assoc] using hc) (ih hfront)

end Placing

/-- What a run of the lexer from `index` on comes to: all characters are placed, or those in front of a
token at which it fails. -/
inductive Arranged (index : Nat) (source : List Char) (lexing : Lexing) : Prop
  | read (hp : Placed [] index source lexing.tokens lexing.offsets) (he : lexing.error = none)
  | failed {before left : List Char} {earlier : List Nat} {error : LexError}
      (hs : source = before ++ left) (hl : left ≠ [])
      (hp : Placed left index before lexing.tokens earlier)
      (ho : lexing.offsets = earlier ++ [index + before.length]) (he : lexing.error = some error)

namespace Arranged
variable {index : Nat} {rest : List Char} {lexing : Lexing}

/-- A run may start with what makes gaps longer. -/
theorem behind (front : List Char)
    (hfront : ∀ gap next, gap ++ next = rest → Gap next gap → Gap next (front ++ gap))
    (h : Arranged (index + front.length) rest lexing) : Arranged index (front ++ rest) lexing := by
  cases h with
  | read hp he => exact .read (hp.behind (by simpa using hfront)) he
  | failed hs hl hp ho he =>
      refine .failed (by rw [hs, List.append_assoc]) hl (hp.behind (by rwa [← hs])) ?_ he
      rw [ho, List.length_append, Nat.add_assoc]

/-- A run may start with a token. -/
theorem token {source : List Char} {token : Token} (ht : Next source token rest)
    (h : Arranged (index + token.literal.toList.length) rest lexing) :
    Arranged index source
      { lexing with tokens := token :: lexing.tokens, offsets := index :: lexing.offsets } := by
  have hlength : token.literal.toList.length = token.literal.length := String.length_toList
  have hne : token.literal ≠ "" := by
    obtain ⟨c, tail, htext, -⟩ := ht.spelled.head
    rintro hempty
    rw [hempty] at htext
    cases htext
  rw [hlength] at h
  rw [ht.split]
  cases h with
  | read hp he => exact .read (.token .nil hne hp) he
  | failed hs hl hp ho he =>
      subst hs
      refine .failed (List.append_assoc _ _ _).symm hl (.token .nil hne hp) ?_ he
      simp [ho, hlength, Nat.add_assoc]

end Arranged

/-- With room for every character a run of the lexer places them all, or those in front of a failure. -/
theorem arranged_lexLoop {room index : Nat} {source : List Char} (hr : source.length ≤ room) :
    Arranged index source (lexLoop room (.between index source)) := by
  refine lexLoop_induction ?_ ?_ ?_ ?_ ?_ hr
  · intro index
    exact .read (.gap .nil) rfl
  · intro index front rest lexing _ hfront _ h
    exact .behind front (fun _ _ _ hg => hg.spaces hfront) h
  · intro index text rest lexing ht hend h
    have hfront (gap next : List Char) (hrest : gap ++ next = rest) (hg : Gap next gap) :
        Gap next ('/' :: '/' :: text ++ gap) := by
      rw [← hrest] at hend
      exact .comment ht hend hg
    exact Arranged.behind ('/' :: '/' :: text) hfront h
  · intro index source token rest lexing ht h
    exact .token ht h
  · intro index source error cursor hstuck _ _ _ _
    exact .failed (List.nil_append source).symm hstuck.nonempty (.gap .nil) rfl rfl

/-- The lexer loses no character. A source that it reads consists of its tokens, in order and each at its
offset, and of gaps between them. If it fails, there is one more offset: that of the token at which it
fails, up to which the same holds. -/
theorem lex_loses_nothing (source : String) :
    ((lex source).error = none →
      Laid source.toList 0 source.length (lex source).tokens (lex source).offsets) ∧
    ∀ error, (lex source).error = some error →
      ∃ earlier start, (lex source).offsets = earlier ++ [start] ∧ start < source.length ∧
        Laid source.toList 0 start (lex source).tokens earlier := by
  have harranged : Arranged 0 source.toList (lex source) := arranged_lexLoop (Nat.le_refl _)
  have hlength : source.toList.length = source.length := String.length_toList
  cases harranged with
  | read hp he =>
      refine ⟨fun _ => ?_, fun error herror => ?_⟩
      · have hlaid : Laid ([] ++ (source.toList ++ [])) 0 (0 + source.toList.length) _ _ := hp.laid rfl
        rwa [List.nil_append, List.append_nil, Nat.zero_add, hlength] at hlaid
      · rw [he] at herror
        cases herror
  | @failed before left earlier error hs hl hp ho he =>
      refine ⟨fun hnone => ?_, fun _ _ => ⟨earlier, before.length, ?_, ?_, ?_⟩⟩
      · rw [he] at hnone
        cases hnone
      · simpa using ho
      · have hpos := List.length_pos_iff.mpr hl
        rw [← hlength, hs, List.length_append]
        omega
      · have hlaid : Laid ([] ++ (before ++ left)) 0 (0 + before.length) _ _ := hp.laid rfl
        rwa [List.nil_append, Nat.zero_add, ← hs] at hlaid

end ProtoScript.Token
