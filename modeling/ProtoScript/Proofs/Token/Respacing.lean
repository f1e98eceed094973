import ProtoScript.Proofs.Token.Boundaries

/-!
# Tokens between other gaps

What stands between two tokens has no say in how they are read, as long as it parts them: white space
first, then white space and comments. So tokens can be written out again with other gaps, and they are read
as they were, each where it has been put.
-/

namespace ProtoScript.Token

/-- White space and comments, each comment with the end of its line. -/
inductive Filler : List Char → Prop
  | nil : Filler []
  | space {c : Char} {text : List Char} (hc : c ∈ [' ', '\x08', '\n', '\r', '\t']) (h : Filler text) :
      Filler (c :: text)
  | comment {body text : List Char} (hb : '\n' ∉ body) (h : Filler text) :
      Filler ('/' :: '/' :: (body ++ '\n' :: text))

/-- What stands behind the last token: nothing, or a filler that starts with white space. It may end with a
comment to which the end of the line is missing. -/
inductive Trailer : List Char → Prop
  | nil : Trailer []
  | filler {text : List Char} (hs : startsIn [isSpace] text = true) (h : Filler text) : Trailer text
  | comment {text body : List Char} (hs : startsIn [isSpace] text = true) (h : Filler text)
      (hb : '\n' ∉ body) : Trailer (text ++ '/' :: '/' :: body)

/-- A token and the gap in front of it. -/
structure Item where
  gap : List Char
  token : Token

/-- The text of gaps and tokens. -/
def writtenOut (items : List Item) : List Char :=
  items.flatMap fun item => item.gap ++ item.token.literal.toList

/-- Tokens of the grammar with fillers in front of them and a trailer behind. Each gap but the first one
starts with white space. -/
structure Apart (items : List Item) (trailer : List Char) : Prop where
  spelled : ∀ item ∈ items, item.token.WellSpelled
  filler : ∀ item ∈ items, Filler item.gap
  parted : ∀ item ∈ items.tail, startsIn [isSpace] item.gap = true
  trailer : Trailer trailer

section Gaps
variable {gap rest : List Char}

theorem lexFrom_filler (h : Filler gap) (index : Nat) :
    lexFrom (.between index (gap ++ rest)) = lexFrom (.between (index + gap.length) rest) := by
  induction h generalizing index with
  | nil => rfl
  | @space c text hc _ ih =>
      have hspace : ∀ d ∈ [c], isSpace d = true := by simpa [isSpace, or_assoc] using hc
      have hskip := lexFrom_spaces hspace index (text ++ rest)
      rw [List.singleton_append, ih] at hskip
      refine hskip.trans (congrArg (fun n => lexFrom (.between n rest)) ?_)
      simp only [List.length_cons, List.length_nil]
      omega
  | @comment body text hb _ ih =>
      -- The line end is white space, so it is skipped behind the comment.
      have hspace : ∀ c ∈ ['\n'], isSpace c = true := List.all_eq_true.mp rfl
      have hline := lexFrom_spaces hspace (index + ('/' :: '/' :: body).length) (text ++ rest)
      have hend : ('\n' :: (text ++ rest)).head? = some '\n' := rfl
      have hskip := lexFrom_comment hb (.inr hend) index
      rw [List.singleton_append, ih] at hline
      rw [hline] at hskip
      simp only [List.cons_append, List.append_assoc]
      refine hskip.trans (congrArg (fun n => lexFrom (.between n rest)) ?_)
      simp only [List.length_cons, List.length_append, List.length_nil]
      omega

theorem lexFrom_trailer (h : Trailer gap) (index : Nat) :
    lexFrom (.between index gap) = ⟨[], [], none, .between (index + gap.length) []⟩ := by
  cases h with
  | nil => rfl
  | filler _ h =>
      rw [← List.append_nil gap, lexFrom_filler h, List.append_nil]
      rfl
  | @comment text body _ h hb =>
      have hskip := lexFrom_comment hb (.inl (rfl : [] = [])) (index + text.length)
      rw [List.append_nil] at hskip
      rw [lexFrom_filler h, hskip, List.length_append, Nat.add_assoc]
      rfl

theorem Trailer.parted (h : Trailer gap) : Parted gap := by
  cases h with
  | nil => exact .inl rfl
  | filler hs _ => exact .inr hs
  | comment hs _ _ => exact .inr (startsIn_append hs _)

end Gaps

section Items
variable {item : Item} {items : List Item} {trailer : List Char}

theorem writtenOut_cons (item : Item) (items : List Item) :
    writtenOut (item :: items) = item.gap ++ (item.token.literal.toList ++ writtenOut items) := by
  rw [writtenOut, List.flatMap_cons, List.append_assoc]
  rfl

theorem Apart.tail (h : Apart (item :: items) trailer) : Apart items trailer where
  spelled other ho := h.spelled other (List.mem_cons_of_mem item ho)
  filler other ho := h.filler other (List.mem_cons_of_mem item ho)
  parted other ho := h.parted other (List.mem_of_mem_tail ho)
  trailer := h.trailer

/-- Behind each token comes white space, or nothing. -/
theorem Apart.parted_rest (h : Apart (item :: items) trailer) :
    Parted (writtenOut items ++ trailer) := by
  cases items with
  | nil => exact h.trailer.parted
  | cons next items =>
      rw [writtenOut_cons, List.append_assoc]
      exact .inr (startsIn_append (h.parted next List.mem_cons_self) _)

/-- Tokens that stand apart are read, each where it stands. -/
theorem Apart.lexFrom_eq (h : Apart items trailer) (index : Nat) :
    let lexing := lexFrom (.between index (writtenOut items ++ trailer))
    lexing.error = none ∧ lexing.tokens = items.map Item.token ∧
      lexing.offsets =
        items.mapIdx fun k item => index + (writtenOut (items.take k)).length + item.gap.length := by
  induction items generalizing index with
  | nil =>
      rw [writtenOut, List.flatMap_nil, List.nil_append, lexFrom_trailer h.trailer]
      exact ⟨rfl, rfl, rfl⟩
  | cons item items ih =>
      have hspelled : item.token.WellSpelled := h.spelled item List.mem_cons_self
      have hnext := Lexeme.next hspelled h.parted_rest
      rw [String.ofList_toList] at hnext
      obtain ⟨herror, htokens, hoffsets⟩ :=
        ih h.tail (index + item.gap.length + item.token.literal.toList.length)
      simp only [writtenOut_cons, List.append_assoc]
      rw [lexFrom_filler (h.filler item List.mem_cons_self), hnext.lexFrom_eq]
      refine ⟨herror, congrArg (item.token :: ·) htokens, ?_⟩
      rw [Lexing.cons, hoffsets, List.mapIdx_cons]
      refine congrArg₂ List.cons (by simp [writtenOut]) ?_
      refine congrArg (List.mapIdx · items) (funext fun k => funext fun other => ?_)
      simp only [List.take_succ_cons, writtenOut_cons, List.length_append]
      omega

end Items

/-- The tokens with single blanks between them. -/
def joined : List Token → List Item
  | [] => []
  | token :: tokens => ⟨[], token⟩ :: tokens.map (⟨[' '], ·⟩)

theorem map_token_joined (tokens : List Token) : (joined tokens).map Item.token = tokens := by
  cases tokens with
  | nil => rfl
  | cons token tokens => simp [joined, Function.comp_def]

theorem writtenOut_joined (tokens : List Token) :
    writtenOut (joined tokens) = (" ".intercalate (tokens.map Token.literal)).toList := by
  rw [String.toList_intercalate]
  cases tokens with
  | nil => rfl
  | cons token tokens =>
      rw [joined, writtenOut_cons, List.nil_append]
      induction tokens generalizing token with
      | nil => simp [writtenOut]
      | cons next tokens ih =>
          rw [List.map_cons, writtenOut_cons, ih]
          simp

theorem apart_joined {tokens : List Token} (h : ∀ token ∈ tokens, token.WellSpelled) :
    Apart (joined tokens) [] := by
  cases tokens with
  | nil => exact ⟨nofun, nofun, nofun, .nil⟩
  | cons token tokens =>
      have hblank : Filler [' '] := .space List.mem_cons_self .nil
      constructor
      · simpa [joined] using h
      · simpa [joined, hblank] using Filler.nil
      · simp [joined, startsIn, isSpace]
      · exact .nil

/-- Tokens of the grammar are read again whatever gaps they are written out with, and each is found where
it has been put. So the tokens of a source are read again from their texts with single blanks between them. -/
theorem tokens_survive_respacing :
    (∀ items trailer, Apart items trailer →
      let lexing := lex (String.ofList (writtenOut items ++ trailer))
      lexing.error = none ∧ lexing.tokens = items.map Item.token ∧
        lexing.offsets =
          items.mapIdx fun k item => (writtenOut (items.take k)).length + item.gap.length) ∧
    ∀ source, (lex source).error = none →
      let again := lex (" ".intercalate ((lex source).tokens.map Token.literal))
      again.error = none ∧ again.tokens = (lex source).tokens := by
  constructor
  · intro items trailer h
    have hread := h.lexFrom_eq 0
    rw [lex_ofList]
    simpa only [Nat.zero_add] using hread
  · intro source hsource
    have hspelled := (cuts_of_lex hsource).wellSpelled
    obtain ⟨herror, htokens, -⟩ := (apart_joined hspelled).lexFrom_eq 0
    rw [List.append_nil, writtenOut_joined] at herror htokens
    exact ⟨herror, htokens.trans (map_token_joined _)⟩

/-- A slash in front of a comment, a signed number and a string that looks like a comment. -/
theorem tokens_survive_respacing_slash :
    let items : List Item :=
      [⟨"//'\n".toList, ⟨.operator, "/"⟩⟩, ⟨" //+\n".toList, ⟨.integer, "-1"⟩⟩,
        ⟨"\t".toList, ⟨.string, "\"//\""⟩⟩]
    let trailer := " // e".toList
    Apart items trailer ∧
      let lexing := lex "//'\n/ //+\n-1\t\"//\" // e"
      lexing.error = none ∧ lexing.tokens = items.map Item.token ∧ lexing.offsets = [4, 10, 13] := by
  intro items trailer
  have hslash : Lexeme .operator ['/'] := .symbol rfl
  have hnumber : Lexeme .integer ['-', '1'] :=
    .integer (.parts (.present (rfl : isSign '-' = true)) (.single (rfl : isDigit '1' = true)) .absent .absent)
  have hstring : Lexeme .string ['"', '/', '/', '"'] :=
    .string (.more (.plain rfl) (.more (.plain rfl) .none))
  have hblank {text : List Char} (h : Filler text) : Filler (' ' :: text) := .space (by decide) h
  have happart : Apart items trailer := by
    constructor
    · simpa [items, WellSpelled] using ⟨hslash, hnumber, hstring⟩
    · have hquote : Filler "//'\n".toList := @Filler.comment ['\''] [] (by decide) .nil
      have hplus : Filler " //+\n".toList := hblank (@Filler.comment ['+'] [] (by decide) .nil)
      have htab : Filler "\t".toList := .space (by decide) .nil
      simpa [items] using ⟨hquote, hplus, htab⟩
    · decide
    · exact @Trailer.comment [' '] [' ', 'e'] rfl (hblank .nil) (by decide)
  have htext : String.ofList (writtenOut items ++ trailer) = "//'\n/ //+\n-1\t\"//\" // e" := by
    decide
  have hread := tokens_survive_respacing.1 items trailer happart
  rw [htext] at hread
  exact ⟨happart, hread⟩

end ProtoScript.Token
