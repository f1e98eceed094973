import ProtoScript.Proofs.Session.Failures
import ProtoScript.Proofs.Text.Lines
import ProtoScript.Proofs.Token.Boundaries
import ProtoScript.Proofs.Tree.Taken

/-!
# Where parse errors are shown

A parse error is about one token, or about the end of the input. The token is found in the source through
the offsets of the lexer. No token holds a line end, so it lies on one line; that line is shown with the
token highlighted and a caret under it. If the input ends too early, the place is behind the last token and
in front of nothing but blanks: the parser only takes tokens that do not end with a blank.
-/

namespace ProtoScript

namespace Text

/-- The blanks at the end of a text are behind its last character that is no blank. -/
theorem le_length_dropBlankEnd {front : List Char} {c : Char} (hlast : front.getLast? = some c)
    (hc : isBlank c = false) (back : List Char) :
    front.length ≤ (dropBlankEnd (front ++ back)).length := by
  obtain ⟨init, rfl⟩ := List.getLast?_eq_some_iff.mp hlast
  simp only [dropBlankEnd, List.reverse_append, List.length_reverse, List.dropWhile_append,
    List.reverse_singleton, List.singleton_append, List.dropWhile_cons, hc]
  split <;> simp

theorem isBlank_drop_dropBlankEnd (text : List Char) :
    ∀ c ∈ text.drop (dropBlankEnd text).length, isBlank c = true := by
  obtain ⟨blanks, htext, hblanks⟩ := dropBlankEnd_append_blank text
  have hdrop : text.drop (dropBlankEnd text).length = blanks :=
    (congrArg (List.drop (dropBlankEnd text).length) htext).trans List.drop_left
  rwa [hdrop]

theorem length_dropBlankEnd_le (text : List Char) : (dropBlankEnd text).length ≤ text.length := by
  obtain ⟨blanks, htext, -⟩ := dropBlankEnd_append_blank text
  have hlength := congrArg List.length htext
  rw [List.length_append] at hlength
  omega

end Text

namespace Token

theorem not_isBlank_of_isNamePart {c : Char} (h : isNamePart c = true) : Text.isBlank c = false := by
  have hrange : 45 ≤ c.toNat ∧ c.toNat ≤ 122 := by
    simp only [isNamePart, isNameStart, isDigit, Bool.or_eq_true, Bool.and_eq_true, decide_eq_true_eq,
      Char.le_def, UInt32.le_iff_toNat_le] at h
    rcases h with (((h | h) | rfl) | h) | rfl
    · change 65 ≤ c.toNat ∧ c.toNat ≤ 90 at h
      omega
    · change 97 ≤ c.toNat ∧ c.toNat ≤ 122 at h
      omega
    · decide
    · change 48 ≤ c.toNat ∧ c.toNat ≤ 57 at h
      omega
    · decide
  simp only [Text.isBlank, Bool.or_eq_false_iff, Bool.and_eq_false_iff, decide_eq_false_iff_not,
    beq_eq_false_iff_ne]
  omega

/-- Names and numbers hold no blanks, and quoted literals end with their quotes. -/
theorem Lexeme.getLast?_not_isBlank {kind : Kind} {text : List Char} (h : Lexeme kind text)
    (hk : kind ≠ .operator) : ∃ c, text.getLast? = some c ∧ Text.isBlank c = false := by
  have hall (hno : ∀ c ∈ text, Text.isBlank c = false) :
      ∃ c, text.getLast? = some c ∧ Text.isBlank c = false := by
    obtain ⟨c, tail, rfl, -⟩ := h.head
    have hne : c :: tail ≠ [] := List.cons_ne_nil c tail
    exact ⟨_, List.getLast?_eq_some_getLast hne, hno _ (List.getLast_mem hne)⟩
  cases h with
  | identifier hc ht =>
      refine hall (List.forall_mem_cons.mpr ⟨?_, fun d hd => not_isBlank_of_isNamePart (ht d hd)⟩)
      exact not_isBlank_of_isNamePart (by simp [isNamePart, hc])
  | integer h | decimal h => exact hall (h.forall_mem (by decide) (by decide))
  | character => exact ⟨'\'', by simp [List.getLast?_cons], rfl⟩
  | string => exact ⟨'"', by simp [List.getLast?_cons], rfl⟩
  | symbol | relation => exact absurd rfl hk

/-- A token of a source stands at its offset. -/
theorem next_of_lex {source : String} (h : (lex source).error = none) {i : Nat} {token : Token}
    (ht : (lex source).tokens[i]? = some token) :
    ∃ before behind, (lex source).offsets[i]? = some before.length ∧
      source.toList = before ++ (token.literal.toList ++ behind) ∧ token.WellSpelled := by
  obtain ⟨offset, ho⟩ : ∃ offset, (lex source).offsets[i]? = some offset := by
    have hi := (List.getElem?_eq_some_iff.mp ht).1
    rw [← (placed_of_lex h).count] at hi
    exact ⟨_, List.getElem?_eq_getElem hi⟩
  have hmem : (token, offset) ∈ (lex source).tokens.zip (lex source).offsets :=
    List.mem_of_getElem? (List.getElem?_zip_eq_some.mpr ⟨ht, ho⟩)
  obtain ⟨before, rest, behind, hsource, hoffset, hnext⟩ := (cuts_of_lex h).next_of_mem (.inl rfl) hmem
  refine ⟨before, behind, ?_, ?_, hnext.spelled⟩
  · rw [ho, hoffset, Nat.zero_add]
  · rw [hsource, hnext.split]

end Token

namespace Grammar

/-- A token that the parser takes does not end with a blank. -/
theorem Usable.getLast?_not_isBlank {token : Token} (h : Usable token) (hs : token.WellSpelled) :
    ∃ c, token.literal.toList.getLast? = some c ∧ Text.isBlank c = false := by
  by_cases hk : token.kind = .operator
  · have hall : (takenTexts.all fun text => text.toList.getLast?.any (!Text.isBlank ·)) = true := by
      decide
    have hany := List.all_eq_true.mp hall _ (h hk)
    cases hlast : token.literal.toList.getLast? with
    | none => simp [hlast] at hany
    | some c => exact ⟨c, rfl, by simpa [hlast] using hany⟩
  · exact hs.getLast?_not_isBlank hk

end Grammar

namespace Reporter
open Text (Style)

/-- The stretch of a report that is as long as a piece of the line, and starts with it, is that piece. -/
theorem highlightEnd_piece {report : Report} {front piece back : List Char} {index : Nat}
    (hp : piece ≠ []) (hr : report.stop - report.start = piece.length) :
    highlightEnd report { line := front ++ (piece ++ back), index, column := front.length } =
      front.length + piece.length := by
  have hpos := List.length_pos_iff.mpr hp
  simp only [highlightEnd, List.length_append]
  omega

/-- A report on a piece of a line shows the line with that piece painted and a caret under it. -/
theorem underline_piece (r : Reporter) (terminal : Style) {report : Report} {source : String}
    {offset : Int} {front piece back : List Char} {index : Nat}
    (hplace : Text.placeAt source.toList offset =
      { line := front ++ (piece ++ back), index, column := front.length })
    (hp : piece ≠ []) (hr : report.stop - report.start = piece.length) (firstLine : Int) :
    r.underline terminal report offset source firstLine =
      "  line " ++ Numeral.ofInt (firstLine + index) ++ ":\n"
        ++ "  " ++ String.ofList front ++ (r.style terminal).paint alarm (String.ofList piece)
        ++ String.ofList back ++ "\n"
        ++ "  " ++ String.ofList (List.replicate front.length ' ')
        ++ (r.style terminal).paint alarm
          (String.ofList ('^' :: List.replicate (piece.length - 1) '~')) := by
  have hpiece : ((front ++ (piece ++ back)).take (front.length + piece.length)).drop front.length =
      piece := by
    rw [List.take_length_add_append, List.drop_left, List.take_left]
  have hback : (front ++ (piece ++ back)).drop (front.length + piece.length) = back := by
    rw [List.drop_length_add_append, List.drop_left]
  have hcaret : front.length + piece.length - front.length - 1 = piece.length - 1 := by omega
  unfold underline
  rw [hplace]
  dsimp only
  rw [highlightEnd_piece hp hr, hpiece, hback, List.take_left, hcaret]

/-- Without colours the pieces of a line make up the line. -/
theorem join_plain (header : String) (front back : List Char) (piece : String) (carets : List Char) :
    header ++ "  " ++ String.ofList front ++ piece ++ String.ofList back ++ "\n"
        ++ "  " ++ String.ofList (List.replicate front.length ' ') ++ String.ofList carets =
      header ++ "  " ++ String.ofList (front ++ (piece.toList ++ back)) ++ "\n"
        ++ String.ofList (List.replicate (front.length + 2) ' ' ++ carets) := by
  apply String.toList_inj.mp
  simp only [String.toList_append, String.toList_ofList, List.append_assoc]
  rfl

end Reporter

section Located
variable {source : String} {e : ParseError} {location : Option Nat}

/-- A parse error of a unit is one of its tokens, with the offset that the lexer kept for it. -/
theorem parse_error_of_parseUnit (h : parseUnit source = .error (.parse e location)) :
    (Token.lex source).error = none ∧
      Parser.parse .source (Token.lex source).tokens = .error (.error e) ∧
      location = some (misfitOffset source (Token.lex source).offsets e) := by
  generalize hf : Failure.parse e location = failure at h
  cases unread_of_parseUnit h with
  | malformed he =>
      rw [Failure.ofLex_of_lex he] at hf
      cases hf
  | @misfit fault he hp =>
      cases fault with
      | error _ =>
          cases hf
          exact ⟨he, hp, rfl⟩
      | unusable | tooDeep => cases hf

variable (he : (Token.lex source).error = none)
  (hp : Parser.parse .source (Token.lex source).tokens = .error (.error e))
include he hp

/-- The offending token is found at the offset, and lies on one line of the source. -/
theorem misfit_on_line {token : Token} (ht : e.token = some token) :
    (Token.lex source).tokens[e.index]? = some token ∧
      (Token.lex source).offsets[e.index]? = some (misfitOffset source (Token.lex source).offsets e) ∧
      token.literal.toList <+: source.toList.drop (misfitOffset source (Token.lex source).offsets e) ∧
      token.literal.toList ≠ [] ∧
      ∃ above front back below,
        Text.IsLine source.toList above (front ++ (token.literal.toList ++ back)) below ∧
        misfitOffset source (Token.lex source).offsets e = above.length + front.length ∧
        Text.placeAt source.toList (misfitOffset source (Token.lex source).offsets e) =
          { line := front ++ (token.literal.toList ++ back)
            index := above.count '\n'
            column := front.length } := by
  obtain ⟨taken, rest, htokens, -, hhead, hindex⟩ := Grammar.taken_of_parse_error hp
  have htoken : (Token.lex source).tokens[e.index]? = some token := by
    rw [htokens, hindex, List.getElem?_append_right (Nat.le_refl _), Nat.sub_self,
      ← List.head?_eq_getElem?, ← hhead, ht]
  obtain ⟨before, behind, hoffset, hsource, hspelled⟩ := Token.next_of_lex he htoken
  have hmisfit : misfitOffset source (Token.lex source).offsets e = before.length := by
    rw [misfitOffset, hoffset]
    rfl
  have hdrop : source.toList.drop before.length = token.literal.toList ++ behind := by
    rw [hsource, List.drop_left]
  obtain ⟨c, tail, hliteral, -⟩ := hspelled.head
  obtain ⟨above, front, back, below, hbefore, -, hline, hplace⟩ :=
    Text.exists_line_around before behind hspelled.not_mem_line
  rw [← hsource] at hline hplace
  rw [hmisfit, hdrop]
  refine ⟨htoken, hoffset, List.prefix_append _ _, by simp [hliteral], above, front, back, below, hline, ?_,
    hplace⟩
  rw [hbefore, List.length_append]

/-- If the input ends too early, all tokens were taken, and the place is behind the last of them. -/
theorem misfit_at_end (ht : e.token = none) :
    e.index = (Token.lex source).tokens.length ∧
      misfitOffset source (Token.lex source).offsets e = (Text.dropBlankEnd source.toList).length ∧
      ∃ last start, (Token.lex source).tokens.getLast? = some last ∧
        (Token.lex source).offsets.getLast? = some start ∧
        start + last.literal.length ≤ (Text.dropBlankEnd source.toList).length := by
  obtain ⟨taken, rest, htokens, husable, hhead, hindex⟩ := Grammar.taken_of_parse_error hp
  have hrest : rest = [] := List.head?_eq_none_iff.mp (hhead.symm.trans ht)
  rw [hrest, List.append_nil] at htokens
  rw [← htokens] at husable hindex
  have hcount := (Token.placed_of_lex he).count
  -- An input without tokens is the empty program.
  have hne : (Token.lex source).tokens ≠ [] := by
    intro hnil
    rw [hnil] at hp
    cases hp
  have hlast := List.getLast?_eq_some_getLast hne
  obtain ⟨before, behind, hoffset, hsource, hspelled⟩ :=
    Token.next_of_lex he (List.getLast?_eq_getElem?.symm.trans hlast)
  obtain ⟨c, hc, hblank⟩ := (husable _ (List.getLast_mem hne)).getLast?_not_isBlank hspelled
  refine ⟨hindex, ?_, _, before.length, hlast, ?_, ?_⟩
  · rw [misfitOffset, List.getElem?_eq_none (Nat.le_of_eq (hcount.trans hindex.symm))]
    rfl
  · rw [List.getLast?_eq_getElem?, hcount, hoffset]
  · have hfront : (before ++ ((Token.lex source).tokens.getLast hne).literal.toList).getLast? = some c := by
      rw [List.getLast?_append, hc, Option.some_or]
    have hle := Text.le_length_dropBlankEnd hfront hblank behind
    rwa [List.append_assoc, ← hsource, List.length_append, String.length_toList] at hle

end Located

/-- The stretch of a parse error is as long as its token. -/
theorem told_stretch {e : ParseError} (location : Option Nat) {token : Token} (ht : e.token = some token)
    (hne : token.literal.toList ≠ []) :
    (Failure.parse e location).told.stop - (Failure.parse e location).told.start =
      token.literal.toList.length := by
  have hsubject : Report.subject e.message = token.literal := by
    simp [Report.subject, ParseError.message, Text.Message.one, ParseError.snippet, ht]
  have hpos := List.length_pos_iff.mpr hne
  rw [String.length_toList] at hpos ⊢
  simp only [Failure.told, Report.plain, Report.make, hsubject, if_true]
  omega

/-- Where a unit cannot be parsed, the place is that of the token that does not fit. The diagnosis shows
the line of the source that holds the token, with exactly the token highlighted and marked by a caret and
tildes under it; without colours the line is shown as it is. If the input ends too early, the place is
behind the last token, and nothing but blanks follows it. -/
theorem parse_errors_underline_their_token {source : String} {e : ParseError} {location : Option Nat}
    (h : parseUnit source = .error (.parse e location)) :
    ∃ offset, location = some offset ∧
      (∀ token, e.token = some token →
        (Token.lex source).tokens[e.index]? = some token ∧
        (Token.lex source).offsets[e.index]? = some offset ∧
        token.literal.toList <+: source.toList.drop offset ∧
        ∃ above front back below,
          Text.IsLine source.toList above (front ++ (token.literal.toList ++ back)) below ∧
          offset = above.length + front.length ∧
          ∀ (r : Reporter) (terminal : Text.Style) (firstLine : Int),
            r.diagnosis terminal (Failure.parse e location).told source firstLine =
              .ok ("  line " ++ Numeral.ofInt (firstLine + above.count '\n') ++ ":\n"
                ++ "  " ++ String.ofList front
                ++ (r.style terminal).paint Reporter.alarm token.literal
                ++ String.ofList back ++ "\n"
                ++ "  " ++ String.ofList (List.replicate front.length ' ')
                ++ (r.style terminal).paint Reporter.alarm
                  (String.ofList ('^' :: List.replicate (token.literal.length - 1) '~'))) ∧
            (r.color = false →
              r.diagnosis terminal (Failure.parse e location).told source firstLine =
                .ok ("  line " ++ Numeral.ofInt (firstLine + above.count '\n') ++ ":\n"
                  ++ "  " ++ String.ofList (front ++ (token.literal.toList ++ back)) ++ "\n"
                  ++ String.ofList (List.replicate (front.length + 2) ' '
                    ++ '^' :: List.replicate (token.literal.length - 1) '~')))) ∧
      (e.token = none → e.index = (Token.lex source).tokens.length ∧ offset ≤ source.length ∧
        (∀ c ∈ source.toList.drop offset, Text.isBlank c = true) ∧
        ∃ last start, (Token.lex source).tokens.getLast? = some last ∧
          (Token.lex source).offsets.getLast? = some start ∧
          start + last.literal.length ≤ offset) := by
  obtain ⟨he, hp, rfl⟩ := parse_error_of_parseUnit h
  refine ⟨_, rfl, fun token ht => ?_, fun ht => ?_⟩
  · obtain ⟨htoken, hoffset, hprefix, hne, above, front, back, below, hline, hsum, hplace⟩ :=
      misfit_on_line he hp ht
    refine ⟨htoken, hoffset, hprefix, above, front, back, below, hline, hsum, fun r terminal firstLine => ?_⟩
    have hstretch := told_stretch (some (misfitOffset source (Token.lex source).offsets e)) ht hne
    have hshown := r.underline_piece terminal hplace hne hstretch firstLine
    rw [String.ofList_toList, String.length_toList] at hshown
    refine ⟨congrArg Except.ok hshown, fun hplain => congrArg Except.ok (hshown.trans ?_)⟩
    have hstyle : r.style terminal = .plain := by simp [Reporter.style, Text.Style.onlyIf, hplain]
    rw [hstyle]
    exact Reporter.join_plain _ front back token.literal _
  · obtain ⟨hindex, hoffset, hlast⟩ := misfit_at_end he hp ht
    rw [hoffset]
    refine ⟨hindex, ?_, Text.isBlank_drop_dropBlankEnd _, hlast⟩
    exact String.length_toList ▸ Text.length_dropBlankEnd_le source.toList

/-- On the second line a comma is missing in front of the second argument. -/
theorem parse_errors_underline_their_token_argument :
    let source := "LET x; // x\n  f(\"a\" -25);"
    let token : Token := ⟨.integer, "-25"⟩
    let e : ParseError := { cause := .notText ")", token := some token, index := 6 }
    parseUnit source = .error (.parse e (some 20)) ∧ e.token = some token ∧
      ∃ above front back below,
        Text.IsLine source.toList above (front ++ (token.literal.toList ++ back)) below ∧
        20 = above.length + front.length ∧
        ({ color := false : Reporter }).diagnosis .ansi (Failure.parse e (some 20)).told source 7 =
          .ok ("  line " ++ Numeral.ofInt (7 + above.count '\n') ++ ":\n"
            ++ "  " ++ String.ofList (front ++ (token.literal.toList ++ back)) ++ "\n"
            ++ String.ofList (List.replicate (front.length + 2) ' '
              ++ '^' :: List.replicate (token.literal.length - 1) '~')) := by
  have h : parseUnit "LET x; // x\n  f(\"a\" -25);" = .error (.parse
      { cause := .notText ")", token := some ⟨.integer, "-25"⟩, index := 6 } (some 20)) := by
    rfl
  intro source token e
  obtain ⟨_, ⟨⟩, hat, -⟩ := parse_errors_underline_their_token h
  obtain ⟨-, -, -, above, front, back, below, hline, hsum, hshown⟩ := hat token rfl
  exact ⟨h, rfl, above, front, back, below, hline, hsum, (hshown { color := false } .ansi 7).2 rfl⟩

end ProtoScript
