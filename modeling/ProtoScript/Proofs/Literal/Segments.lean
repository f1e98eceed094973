import ProtoScript.Proofs.Literal.Written
import ProtoScript.Proofs.Token.Boundaries
import ProtoScript.Proofs.Token.Lines
import ProtoScript.Proofs.Tree.RoundTrip

/-!
# Reading and decoding quoted literals

What stands between two quotes is split twice: by the lexer, which looks for the second quote, and by
decoding, which looks for escapes. Both go from left to right and come to the same segments, whatever runs
of backslashes there are. So every text can be written between quotes and is read back, and decoding leaves
no backslash behind that was not written as an escape.
-/

namespace ProtoScript.Literal
open ProtoScript.Token ProtoScript.Token.Scan

/-- A part of what stands between two quotes: a character, or a backslash and a character. -/
inductive Segment
  | plain (c : Char)
  | escape (c : Char)
  deriving DecidableEq, Repr

namespace Segment

/-- How a segment is written. -/
def text : Segment → List Char
  | plain c => [c]
  | escape c => ['\\', c]

/-- The character that a segment stands for. -/
def meaning : Segment → Char
  | plain c => c
  | escape c => (escaped c).getD c

/-- Whether the segment can stand between two quotes. -/
def fits (quote : Char) : Segment → Bool
  | plain c => isPlain quote c
  | escape c => isEscapable c

end Segment

/-- How decoding splits a text: known escapes from left to right, and single characters between them. -/
def splitEscapes : List Char → List Segment
  | [] => []
  | [c] => [.plain c]
  | c :: d :: rest =>
      if c = '\\' then
        match escaped d with
        | some _ => .escape d :: splitEscapes rest
        | none => .plain c :: .plain d :: splitEscapes rest
      else .plain c :: splitEscapes (d :: rest)

/-- Decoding replaces each segment by what it stands for. -/
theorem decodeEscapes_eq_map (text : List Char) :
    decodeEscapes text = (splitEscapes text).map Segment.meaning := by
  fun_induction splitEscapes text with
  | case1 => rfl
  | case2 c => rfl
  | case3 d rest e he ih => simp [decodeEscapes, he, ih, Segment.meaning]
  | case4 d rest he ih => simp [decodeEscapes, he, ih, Segment.meaning]
  | case5 c d rest hc ih => simp [decodeEscapes, hc, ih, Segment.meaning]

/-- Nothing gets lost when a text is split. -/
theorem flatMap_splitEscapes (text : List Char) : (splitEscapes text).flatMap Segment.text = text := by
  fun_induction splitEscapes text <;> simp_all [Segment.text]

section Fitting
variable {quote : Char} {segment : Segment} {segments : List Segment}

theorem splitEscapes_append (h : segment.fits quote = true) (rest : List Char) :
    splitEscapes (segment.text ++ rest) = segment :: splitEscapes rest := by
  cases segment with
  | plain c =>
      have hc : c ≠ '\\' := by simpa [only] using not_isBackslash_of_isPlain h
      cases rest with
      | nil => rfl
      | cons d rest => rw [Segment.text, List.singleton_append, splitEscapes, if_neg hc]
  | escape c =>
      obtain ⟨e, he⟩ := escaped_of_isEscapable h
      simp [Segment.text, splitEscapes, he]

/-- Decoding finds the segments that a text was made of. -/
theorem splitEscapes_flatMap (h : ∀ segment ∈ segments, segment.fits quote = true) :
    splitEscapes (segments.flatMap Segment.text) = segments := by
  induction segments with
  | nil => rfl
  | cons segment segments ih =>
      obtain ⟨hfirst, hrest⟩ := List.forall_mem_cons.mp h
      rw [List.flatMap_cons, splitEscapes_append hfirst, ih hrest]

/-- Only an escaped backslash stands for a backslash. -/
theorem eq_escape_of_meaning (h : segment.fits quote = true) (hm : segment.meaning = '\\') :
    segment = .escape '\\' := by
  cases segment with
  | plain c =>
      obtain rfl : c = '\\' := hm
      cases not_isBackslash_of_isPlain h
  | escape c =>
      simp only [Segment.fits, isEscapable, Bool.or_eq_true, decide_eq_true_eq] at h
      rcases h with (((((rfl | rfl) | rfl) | rfl) | rfl) | rfl) | rfl
      iterate 6 exact absurd hm (by decide)
      rfl

theorem exists_segment {text : List Char} (h : Piece quote text) :
    ∃ segment : Segment, segment.fits quote = true ∧ text = segment.text := by
  cases h with
  | @plain c h => exact ⟨.plain c, h, rfl⟩
  | @escape c h => exact ⟨.escape c, h, rfl⟩

theorem exists_segments {text : List Char} (h : Pieces quote text) :
    ∃ segments : List Segment, (∀ segment ∈ segments, segment.fits quote = true) ∧
      text = segments.flatMap Segment.text := by
  induction h with
  | none => exact ⟨[], nofun, rfl⟩
  | more hf _ ih =>
      obtain ⟨segment, hfits, rfl⟩ := exists_segment hf
      obtain ⟨segments, hall, rfl⟩ := ih
      exact ⟨segment :: segments, List.forall_mem_cons.mpr ⟨hfits, hall⟩, rfl⟩

end Fitting

/-- The loop of the lexer over the body of a string goes round once for each of the segments, and stops. -/
inductive Rounds : Cursor → List Segment → Cursor → Prop
  | stop {c : Cursor} (h : ∀ room, lexStringBody room c = .ok () c) : Rounds c [] c
  | round {c d e : Cursor} {segment : Segment} {segments : List Segment}
      (hread : c.Reads segment.text d) (hround : ∀ room, lexStringBody (room + 1) c = lexStringBody room d)
      (h : Rounds d segments e) : Rounds c (segment :: segments) e

/-- How the lexer splits what stands between two quotes. -/
inductive Segmented : Kind → Cursor → List Segment → Cursor → Prop
  | character {c d : Cursor} {segment : Segment} (hread : c.Reads segment.text d)
      (h : lexCharacterBody c = .ok () d) : Segmented .character c [segment] d
  | string {c d : Cursor} {segments : List Segment} (h : Rounds c segments d) :
      Segmented .string c segments d

section Lexing
variable {index : Nat} {text rest : List Char} {segment : Segment} {segments : List Segment}

theorem reads_inside (index : Nat) (text more rest : List Char) :
    (Cursor.inside index text (more ++ rest)).Reads more (.inside index (text ++ more) rest) := by
  refine ⟨rfl, ?_⟩
  simp [Cursor.inside, Nat.add_assoc]

/-- One round of the loop takes one segment. -/
theorem lexStringBody_round (h : segment.fits '"' = true) (room : Nat) :
    lexStringBody (room + 1) (.inside index text (segment.text ++ rest)) =
      lexStringBody room (.inside index (text ++ segment.text) rest) := by
  cases segment with
  | plain c =>
      have hback : startsIn [only '\\'] (c :: rest) = false := by
        simp [startsIn, not_isBackslash_of_isPlain h]
      rw [lexStringBody]
      refine ((steps_refuse hback).bind_apply _).trans ?_
      exact (steps_accept h).bind_apply _
  | escape c =>
      rw [lexStringBody]
      refine ((steps_accept (c := '\\') rfl).bind_apply _).trans ?_
      refine ((steps_lexEscape h).bind_apply _).trans ?_
      rw [List.append_assoc]
      rfl

theorem rounds_inside (h : ∀ segment ∈ segments, segment.fits '"' = true) :
    Rounds (.inside index text (segments.flatMap Segment.text ++ '"' :: rest)) segments
      (.inside index (text ++ segments.flatMap Segment.text) ('"' :: rest)) := by
  induction segments generalizing text with
  | nil =>
      rw [List.flatMap_nil, List.nil_append, List.append_nil]
      refine .stop fun room => ?_
      cases room with
      | zero => rfl
      | succ room => exact (steps_refuse rfl).bind ((steps_refuse rfl).bind rfl)
  | cons segment segments ih =>
      obtain ⟨hfirst, hrest⟩ := List.forall_mem_cons.mp h
      rw [List.flatMap_cons, List.append_assoc, ← List.append_assoc text]
      exact .round (reads_inside ..) (lexStringBody_round hfirst) (ih hrest)

theorem segmented_character (h : segment.fits '\'' = true) :
    Segmented .character (.inside index text (segment.text ++ rest)) [segment]
      (.inside index (text ++ segment.text) rest) := by
  refine .character (reads_inside ..) ?_
  cases segment with
  | plain c => exact steps_lexCharacterBody (.plain h)
  | escape c => exact steps_lexCharacterBody (.escape h)

end Lexing

section Unique
variable {c d : Cursor}

theorem Segment.text_injective {segment other : Segment} (h : segment.text = other.text) :
    segment = other := by
  cases segment <;> cases other <;> simp_all [Segment.text]

/-- What lies between two cursors is one segment at most. -/
theorem segment_of_reads {segment other : Segment} (h : c.Reads segment.text d)
    (h' : c.Reads other.text d) : segment = other :=
  Segment.text_injective (List.append_cancel_right (h.1.symm.trans h'.1))

theorem not_reads_self (segment : Segment) : ¬c.Reads segment.text c := by
  intro h
  have hindex := h.2
  cases segment <;> simp [Segment.text] at hindex

theorem Rounds.unique {e : Cursor} {segments others : List Segment} (h : Rounds c segments d)
    (h' : Rounds c others e) : segments = others ∧ d = e := by
  -- With room for one round the loop ends where the first segment does.
  induction h generalizing others with
  | stop hstop =>
      cases h' with
      | stop => exact ⟨rfl, rfl⟩
      | round hread hround _ =>
          injection (hstop 1).symm.trans (hround 0) with _ heq
          subst heq
          exact absurd hread (not_reads_self _)
  | round hread hround _ ih =>
      cases h' with
      | stop hstop =>
          injection (hstop 1).symm.trans (hround 0) with _ heq
          subst heq
          exact absurd hread (not_reads_self _)
      | round hread' hround' hlater =>
          injection (hround 0).symm.trans (hround' 0) with _ heq
          subst heq
          obtain ⟨rfl, rfl⟩ := ih hlater
          exact ⟨congrArg (· :: _) (segment_of_reads hread hread'), rfl⟩

theorem Segmented.unique {kind : Kind} {e : Cursor} {segments others : List Segment}
    (h : Segmented kind c segments d) (h' : Segmented kind c others e) : segments = others ∧ d = e := by
  cases h with
  | character hread h =>
      cases h' with
      | character hread' h' =>
          injection h.symm.trans h' with _ heq
          subst heq
          exact ⟨congrArg (fun segment => [segment]) (segment_of_reads hread hread'), rfl⟩
  | string h =>
      cases h' with
      | string h' => exact h.unique h'

end Unique

/-- The token is a quoted literal that starts at the offset. The lexer splits its body as decoding does, and
stops in front of the second quote. Decoding replaces the segments one by one, and what is a backslash then
was written as an escaped one. -/
structure SplitAlike (source : List Char) (offset : Nat) (token : Token) (quote : Char)
    (body after : List Char) : Prop where
  literal : token.literal.toList = quote :: (body ++ [quote])
  placed : source.drop offset = quote :: (body ++ quote :: after)
  whole : (splitEscapes body).flatMap Segment.text = body
  split : ∀ segments stop,
    Segmented token.kind (.inside offset [quote] (body ++ quote :: after)) segments stop ↔
      segments = splitEscapes body ∧ stop = .inside offset (quote :: body) (quote :: after)
  decoded : decode token.literal = String.ofList ((splitEscapes body).map Segment.meaning)
  backslash : ∀ segment ∈ splitEscapes body, segment.meaning = '\\' → segment = .escape '\\'

section Literals
variable {source after : List Char} {offset : Nat} {token : Token} {quote : Char}
  {segments : List Segment}

/-- A literal is split alike if the lexer comes to segments that can stand between its quotes. -/
theorem splitAlike_of_segmented (hfits : ∀ segment ∈ segments, segment.fits quote = true)
    (hliteral : token.literal.toList = quote :: (segments.flatMap Segment.text ++ [quote]))
    (hplaced : source.drop offset = quote :: (segments.flatMap Segment.text ++ quote :: after))
    (h : Segmented token.kind (.inside offset [quote] (segments.flatMap Segment.text ++ quote :: after))
      segments (.inside offset (quote :: segments.flatMap Segment.text) (quote :: after))) :
    SplitAlike source offset token quote (segments.flatMap Segment.text) after where
  literal := hliteral
  placed := hplaced
  whole := flatMap_splitEscapes _
  split others stop := by
    rw [splitEscapes_flatMap hfits]
    constructor
    · intro h'
      obtain ⟨hsegments, hstop⟩ := h.unique h'
      exact ⟨hsegments.symm, hstop.symm⟩
    · rintro ⟨rfl, rfl⟩
      exact h
  decoded := by
    rw [← String.ofList_toList (s := token.literal), hliteral, decode_quoted, decodeEscapes_eq_map]
  backslash := by
    rw [splitEscapes_flatMap hfits]
    exact fun segment hs hm => eq_escape_of_meaning (hfits segment hs) hm

theorem splitAlike_string (hk : token.kind = .string) (h : token.WellSpelled)
    (hplaced : source.drop offset = token.literal.toList ++ after) :
    ∃ body, SplitAlike source offset token '"' body after := by
  obtain ⟨kind, literal⟩ := token
  obtain rfl : kind = .string := hk
  rw [WellSpelled] at h
  generalize htext : literal.toList = text at h hplaced
  cases h with
  | string hpieces =>
      obtain ⟨segments, hfits, rfl⟩ := exists_segments hpieces
      refine ⟨_, splitAlike_of_segmented hfits htext (by simpa using hplaced) (.string ?_)⟩
      exact rounds_inside hfits

theorem splitAlike_character (hk : token.kind = .character) (h : token.WellSpelled)
    (hplaced : source.drop offset = token.literal.toList ++ after) :
    ∃ body, SplitAlike source offset token '\'' body after ∧
      ∃ c, decode token.literal = String.singleton c := by
  obtain ⟨kind, literal⟩ := token
  obtain rfl : kind = .character := hk
  rw [WellSpelled] at h
  generalize htext : literal.toList = text at h hplaced
  cases h with
  | character hpiece =>
      obtain ⟨segment, hfits, rfl⟩ := exists_segment hpiece
      have hall : ∀ other ∈ [segment], other.fits '\'' = true := by simpa using hfits
      have hflat : [segment].flatMap Segment.text = segment.text := List.append_nil _
      have hsplit : SplitAlike source offset ⟨.character, literal⟩ '\''
          ([segment].flatMap Segment.text) after := by
        refine splitAlike_of_segmented hall (by rw [hflat]; exact htext) ?_ ?_
        · simpa [hflat] using hplaced
        · rw [hflat]
          exact segmented_character hfits
      refine ⟨_, hsplit, segment.meaning, ?_⟩
      rw [hsplit.decoded, splitEscapes_flatMap hall]
      rfl

/-- A literal by itself is parsed to its value. -/
theorem parse_token {value : Literal} (h : value.expressible = true) :
    Parser.parse .expression [value.token] = .ok (.expr (.literal value)) := by
  exact Grammar.parse_of_denotes (wellSpelled_token h).shaped (denotes_token h)

end Literals

/-- Every text between double quotes, and every character between single quotes, is read as one token and
parsed to itself, if its escapes are written. Of every quoted token that is read from a source, the lexer and
decoding split the body alike, and a character literal stands for one character. -/
theorem quoted_literals_split_alike :
    (∀ text : String,
      let source := quoted '"' text
      (lex source).error = none ∧ (lex source).tokens = [⟨.string, source⟩] ∧ (lex source).offsets = [0] ∧
        Parser.parse .expression (lex source).tokens = .ok (.expr (.literal (.string text)))) ∧
    (∀ c : Char,
      let source := quoted '\'' (String.singleton c)
      (lex source).error = none ∧ (lex source).tokens = [⟨.character, source⟩] ∧
        (lex source).offsets = [0] ∧
        Parser.parse .expression (lex source).tokens =
          .ok (.expr (.literal (.character (String.singleton c))))) ∧
    ∀ source token offset, (token, offset) ∈ (lex source).tokens.zip (lex source).offsets →
      (token.kind = .string → ∃ body after, SplitAlike source.toList offset token '"' body after) ∧
      (token.kind = .character → ∃ body after, SplitAlike source.toList offset token '\'' body after ∧
        ∃ c, decode token.literal = String.singleton c) := by
  have hread {value : Literal} (h : value.expressible = true) :
      let source := value.token.literal
      (lex source).error = none ∧ (lex source).tokens = [value.token] ∧ (lex source).offsets = [0] ∧
        Parser.parse .expression (lex source).tokens = .ok (.expr (.literal value)) := by
    obtain ⟨herror, htokens, hoffsets⟩ := lex_of_wellSpelled (wellSpelled_token h)
    exact ⟨herror, htokens, hoffsets, htokens ▸ parse_token h⟩
  refine ⟨fun text => @hread (.string text) rfl, fun c => @hread (.character (String.singleton c)) ?_, ?_⟩
  · simp [expressible]
  · intro source token offset hmem
    obtain ⟨tokens, left, hcuts, hleft⟩ := exists_cuts source.toList
    obtain ⟨before, rest, after, hsource, hoffset, hnext⟩ := hcuts.next_of_mem hleft hmem
    have hplaced : source.toList.drop offset = token.literal.toList ++ after := by
      rw [hsource, hoffset, Nat.zero_add, List.drop_left, hnext.split]
    constructor
    · intro hk
      obtain ⟨body, h⟩ := splitAlike_string hk hnext.spelled hplaced
      exact ⟨body, after, h⟩
    · intro hk
      obtain ⟨body, h⟩ := splitAlike_character hk hnext.spelled hplaced
      exact ⟨body, after, h⟩

/-- A string with three backslashes in front of a quote, and the rest of a source that cannot be read. -/
theorem quoted_literals_split_alike_backslashes :
    let source := "f(\"\\\\\\\"n\"); 'ab'"
    let token : Token := ⟨.string, "\"\\\\\\\"n\""⟩
    (token, 2) ∈ (lex source).tokens.zip (lex source).offsets ∧
      (∃ body after, SplitAlike source.toList 2 token '"' body after) ∧
      splitEscapes "\\\\\\\"n".toList = [.escape '\\', .escape '"', .plain 'n'] := by
  intro source token
  have hmem : (token, 2) ∈ (lex source).tokens.zip (lex source).offsets := by decide
  exact ⟨hmem, (quoted_literals_split_alike.2.2 source token 2 hmem).1 rfl, by decide⟩

end ProtoScript.Literal
