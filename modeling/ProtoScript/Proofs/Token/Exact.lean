import ProtoScript.Proofs.Token.Munch

/-!
# The lexer accepts exactly the token grammar

What stands at the front of a source is a token of the selected rule, and then the lexer takes the
longest one; or nothing there is a token, and then the lexer fails inside a number or a quoted literal.
Step by step, the lexer therefore cuts a source in the only way in which it can be cut.
-/

namespace ProtoScript.Token
open Scan

section Numbers
variable {text : List Char} {fraction exponent : Bool} {d : Char}

theorem Digits.append {digits : List Char} (h : Digits digits) (hd : isDigit d = true) :
    Digits (digits ++ [d]) := by
  refine ⟨by simp, fun c hc => ?_⟩
  rcases List.mem_append.mp hc with hc | hc
  · exact h.all c hc
  · rw [List.mem_singleton.mp hc]
    exact hd

/-- A number goes on with a digit. -/
theorem Number.appendDigit (h : Number fraction exponent text) (hd : isDigit d = true) :
    Number fraction exponent (text ++ [d]) := by
  obtain @⟨sign, whole, behind, power, hs, hw, hf, he⟩ := h
  cases he with
  | @present mark sign' digits hm hs' hds =>
      have hnew := Number.parts hs hw hf (.present hm hs' (hds.append hd))
      simpa only [List.append_assoc, List.cons_append] using hnew
  | absent =>
      cases hf with
      | @present digits hds =>
          have hnew := Number.parts hs hw (.present (hds.append hd)) .absent
          simpa only [List.append_assoc, List.cons_append, List.append_nil] using hnew
      | absent =>
          have hnew := Number.parts hs (hw.append hd) .absent .absent
          simpa only [List.append_assoc, List.append_nil] using hnew

/-- An integer goes on with a point and a digit. -/
theorem Number.appendFraction (h : Number false false text) (hd : isDigit d = true) :
    Number true false (text ++ ['.', d]) := by
  obtain ⟨hs, hw, hf, he⟩ := h
  cases hf
  cases he
  have hnew := Number.parts hs hw (.present (.single hd)) .absent
  simpa only [List.append_assoc, List.append_nil] using hnew

/-- A number without an exponent goes on with one. -/
theorem Number.appendExponent {power : List Char} (h : Number fraction false text)
    (hp : Exponent true power) : Number fraction true (text ++ power) := by
  obtain ⟨hs, hw, hf, he⟩ := h
  cases he
  have hnew := Number.parts hs hw hf hp
  simpa only [List.append_assoc, List.append_nil] using hnew

theorem Number.lexeme (h : Number fraction exponent text) :
    Lexeme (if fraction then .decimal else .integer) text := by
  cases fraction with
  | false => exact .integer h
  | true => exact .decimal h

theorem form_number : (if fraction then Kind.decimal else Kind.integer).form = .number := by
  cases fraction <;> rfl

end Numbers

/-- No text at the front of `source` that the same rule describes is longer. -/
def Longest (kind : Kind) (text source : List Char) : Prop :=
  ∀ other more, other.form = kind.form → Lexeme other more → more <+: source →
    more.length ≤ text.length

/-- The longest token cannot be made longer. -/
theorem Longest.not_lexeme {kind other : Kind} {text more rest : List Char}
    (h : Longest kind text (text ++ (more ++ rest))) (hk : other.form = kind.form) (hm : more ≠ []) :
    ¬Lexeme other (text ++ more) := by
  intro hl
  have hle := h other (text ++ more) hk hl ⟨rest, by simp⟩
  have hpos : 0 < more.length := List.length_pos_iff.mpr hm
  simp only [List.length_append] at hle
  omega

/-- The lexer decides by the rule that the source selects. -/
theorem lexToken_apply (index : Nat) (source : List Char) :
    lexToken (.between index source) =
      (match formOf source with
        | .identifier => lexIdentifier
        | .number => lexNumber
        | .character => lexCharacter
        | .string => lexString
        | .operator => lexOperator) (.between index source) := by
  change (if startsIn [isNameStart] source then lexIdentifier
    else if startsIn [isSign, isDigit] source || startsIn [isDigit] source then lexNumber
    else if startsIn [only '\''] source then lexCharacter
    else if startsIn [only '"'] source then lexString
    else lexOperator) (.between index source) = _
  unfold formOf
  split
  · rfl
  split
  · rfl
  split
  · rfl
  split <;> rfl

section Step
variable {index : Nat} {kind : Kind} {text rest : List Char}

theorem steps_lexNumber_of_longest {fraction exponent : Bool} (hn : Number fraction exponent text)
    (hk : kind.form = .number) (hlong : Longest kind text (text ++ rest))
    (hm : exponent = false → startsIn [isExponentMark] rest = false) :
    Steps lexNumber (.between index (text ++ rest))
      ⟨if fraction then .decimal else .integer, String.ofList text⟩
      (.between (index + text.length) rest) := by
  apply steps_lexNumber hn _ _ hm
  · cases hstart : startsIn [isDigit] rest with
    | false => rfl
    | true =>
        obtain ⟨d, tail, rfl, hd⟩ := startsIn_one hstart
        have hlonger := (hn.appendDigit hd).lexeme
        exact absurd hlonger (hlong.not_lexeme (form_number.trans hk.symm) (by simp))
  · rintro rfl rfl
    cases hstart : startsIn [only '.', isDigit] rest with
    | false => rfl
    | true =>
        obtain ⟨p, d, tail, rfl, hp, hd⟩ := startsIn_two hstart
        obtain rfl : p = '.' := by simpa [only] using hp
        have hlonger := (hn.appendFraction hd).lexeme
        exact absurd hlonger (@Longest.not_lexeme _ _ _ ['.', d] _ hlong hk.symm (by simp))

/-- The lexer takes the longest text that the selected rule describes. -/
theorem steps_lexToken (hl : Lexeme kind text) (hk : kind.form = formOf (text ++ rest))
    (hlong : Longest kind text (text ++ rest))
    (hm : ∀ fraction, kind.form = .number → Number fraction false text →
      startsIn [isExponentMark] rest = false) :
    Steps lexToken (.between index (text ++ rest)) ⟨kind, String.ofList text⟩
      (.between (index + text.length) rest) := by
  rw [Steps, lexToken_apply, ← hk]
  cases hl with
  | @identifier c text hc ht =>
      apply steps_lexIdentifier hc ht
      cases hstart : startsIn [isNamePart] rest with
      | false => rfl
      | true =>
          obtain ⟨d, tail, rfl, hd⟩ := startsIn_one hstart
          have hlonger : Lexeme .identifier (c :: text ++ [d]) := by
            refine .identifier hc fun x hx => ?_
            rcases List.mem_append.mp hx with hx | hx
            · exact ht x hx
            · rw [List.mem_singleton.mp hx]
              exact hd
          exact absurd hlonger (hlong.not_lexeme rfl (by simp))
  | @integer exponent _ h =>
      refine steps_lexNumber_of_longest h rfl hlong ?_
      rintro rfl
      exact hm false rfl h
  | @decimal exponent _ h =>
      refine steps_lexNumber_of_longest h rfl hlong ?_
      rintro rfl
      exact hm true rfl h
  | character h =>
      simp only [List.cons_append, List.append_assoc]
      exact steps_lexCharacter h
  | string h =>
      simp only [List.cons_append, List.append_assoc]
      exact steps_lexString h
  | @symbol c h =>
      have hequals : isRelation c = true → startsIn [only '='] rest = false := by
        intro hr
        cases hstart : startsIn [only '='] rest with
        | false => rfl
        | true =>
            obtain ⟨d, tail, rfl, hd⟩ := startsIn_one hstart
            obtain rfl : d = '=' := by simpa [only] using hd
            have hlonger : Lexeme .operator ([c] ++ ['=']) := .relation hr
            exact absurd hlonger (hlong.not_lexeme rfl (by simp))
      exact steps_lexOperator h hequals
  | relation h => exact steps_lexOperator_relation h

end Step

section Next
variable {source rest : List Char} {token : Token}

/-- The lexer reads the next token. -/
theorem Next.steps (h : Next source token rest) (index : Nat) :
    Steps lexToken (.between index source) token
      (.between (index + token.literal.toList.length) rest) := by
  obtain ⟨kind, literal⟩ := token
  obtain ⟨hsplit, -, hselected, hspelled, hlongest, hunmarked⟩ := h
  have hsteps : Steps lexToken (.between index (literal.toList ++ rest)) _ _ :=
    steps_lexToken hspelled (hsplit ▸ hselected) (fun other more => hsplit ▸ hlongest other more)
      hunmarked
  rw [hsplit]
  simpa using hsteps

/-- There is at most one next token. -/
theorem Next.unique {token' : Token} {rest' : List Char} (h : Next source token rest)
    (h' : Next source token' rest') : token = token' ∧ rest = rest' := by
  have heq := (h.steps 0).symm.trans (h'.steps 0)
  injection heq with htoken hcursor
  exact ⟨htoken, congrArg Cursor.rest hcursor⟩

theorem not_isSpace {c : Char} (h : isSpace c = true) :
    isNameStart c = false ∧ isSign c = false ∧ isDigit c = false ∧ isSymbol c = false ∧
      isExponentMark c = false ∧ isNamePart c = false ∧ c ≠ '\'' ∧ c ≠ '"' ∧ c ≠ '.' ∧ c ≠ '/' ∧ c ≠ '=' := by
  simp only [isSpace, Bool.or_eq_true, decide_eq_true_eq] at h
  rcases h with (((rfl | rfl) | rfl) | rfl) | rfl <;> decide

/-- A token is not empty and does not start with white space. -/
theorem Lexeme.head {kind : Kind} {text : List Char} (h : Lexeme kind text) :
    ∃ c tail, text = c :: tail ∧ isSpace c = false := by
  have hno {p : Prop} {c : Char} (h : isSpace c = true → ¬p) (hp : p) : isSpace c = false :=
    Bool.eq_false_iff.mpr fun hs => h hs hp
  cases h with
  | identifier hc ht => exact ⟨_, _, rfl, hno (fun hs => by simp [not_isSpace hs]) hc⟩
  | integer h | decimal h =>
      obtain @⟨sign, whole, behind, power, hs, hw, hf, he⟩ := h
      cases hs with
      | present hc => exact ⟨_, _, rfl, hno (fun hs => by simp [not_isSpace hs]) hc⟩
      | absent =>
          cases whole with
          | nil => exact absurd rfl hw.nonempty
          | cons d whole =>
              refine ⟨d, _, rfl, hno (fun hs => ?_) (hw.all d List.mem_cons_self)⟩
              simp [not_isSpace hs]
  | character h => exact ⟨_, _, rfl, by decide⟩
  | string h => exact ⟨_, _, rfl, by decide⟩
  | symbol hc => exact ⟨_, _, rfl, hno (fun hs => by simp [not_isSpace hs]) hc⟩
  | relation hc =>
      refine ⟨_, _, rfl, hno (fun hs => ?_) (isSymbol_of_isRelation hc)⟩
      simp [not_isSpace hs]

theorem Next.head (h : Next source token rest) :
    ∃ c tail, source = c :: tail ∧ isSpace c = false := by
  obtain ⟨c, tail, ht, hc⟩ := h.spelled.head
  exact ⟨c, tail ++ rest, by rw [h.split, ht]; rfl, hc⟩

end Next

/-- Among the texts of some kind at the front of a source one is the longest. -/
theorem exists_longest {P : List Char → Prop} {source text : List Char} (ht : text <+: source)
    (hp : P text) :
    ∃ text rest, source = text ++ rest ∧ P text ∧
      ∀ more, P more → more <+: source → more.length ≤ text.length := by
  -- The induction is on how much of the source is left behind the text.
  obtain ⟨room, hroom⟩ : ∃ room, source.length - text.length ≤ room := ⟨_, Nat.le_refl _⟩
  induction room generalizing text with
  | zero =>
      obtain ⟨rest, rfl⟩ := ht
      refine ⟨text, rest, rfl, hp, fun more _ hm => ?_⟩
      have hle := hm.length_le
      omega
  | succ room ih =>
      by_cases hlonger : ∃ more, P more ∧ more <+: source ∧ text.length < more.length
      · obtain ⟨more, hpm, hm, hlt⟩ := hlonger
        have hle := hm.length_le
        exact ih hm hpm (by omega)
      · obtain ⟨rest, rfl⟩ := ht
        refine ⟨text, rest, rfl, hp, fun more hpm hm => ?_⟩
        exact Nat.le_of_not_lt fun hlt => hlonger ⟨more, hpm, hm, hlt⟩

section Cases
variable {source : List Char}

/-- If the selected rule describes some text at the front, then there is a next token, or a number
without an exponent in front of an exponent mark. -/
theorem exists_next {kind : Kind} {text : List Char} (hc : startsComment source = false)
    (hk : kind.form = formOf source) (hl : Lexeme kind text) (ht : text <+: source) :
    (∃ token rest, Next source token rest) ∨
      ∃ fraction text rest, source = text ++ rest ∧ Number fraction false text ∧
        formOf source = .number ∧ startsIn [isExponentMark] rest = true ∧
        Longest .integer text source := by
  have hsome : ∃ kind : Kind, kind.form = formOf source ∧ Lexeme kind text := ⟨kind, hk, hl⟩
  obtain ⟨text, rest, hsplit, ⟨kind, hk, hl⟩, hlong⟩ :=
    exists_longest (P := fun text => ∃ kind : Kind, kind.form = formOf source ∧ Lexeme kind text)
      ht hsome
  by_cases hmarked : ∃ fraction, kind.form = .number ∧ Number fraction false text ∧
      startsIn [isExponentMark] rest = true
  · obtain ⟨fraction, hform, hn, hm⟩ := hmarked
    refine .inr ⟨fraction, text, rest, hsplit, hn, hk.symm.trans hform, hm, ?_⟩
    intro other more ho hmore hprefix
    exact hlong more ⟨other, (ho.trans hform.symm).trans hk, hmore⟩ hprefix
  · refine .inl ⟨⟨kind, String.ofList text⟩, rest, ?_⟩
    constructor
    · simpa using hsplit
    · exact hc
    · exact hk
    · simpa [WellSpelled] using hl
    · intro other more ho hmore hprefix
      simpa using hlong more ⟨other, ho.trans hk, hmore⟩ hprefix
    · intro fraction hform hn
      rw [String.toList_ofList] at hn
      exact Bool.eq_false_iff.mpr fun hm => hmarked ⟨fraction, hform, hn, hm⟩

/-- A source starts as the class of the selected rule demands. -/
theorem starts_of_formOf {kind : Kind} (hk : kind.form = formOf source) (hne : source ≠ [])
    (hs : startsIn [isSpace] source = false) : kind.starts source = true := by
  obtain ⟨c, tail, rfl⟩ := List.exists_cons_of_ne_nil hne
  unfold formOf at hk
  split at hk
  · cases kind <;> first | assumption | cases hk
  split at hk
  · cases kind <;> first | assumption | cases hk
  split at hk
  · cases kind <;> first | assumption | cases hk
  split at hk
  · cases kind <;> first | assumption | cases hk
  · cases kind <;> try cases hk
    simp_all [Kind.starts, startsIn, isSymbol, only]

theorem breaks_of_longest {index : Nat} {text rest : List Char} {fraction : Bool}
    (hn : Number fraction false text) (hm : startsIn [isExponentMark] rest = true)
    (hlong : Longest .integer text (text ++ rest)) :
    Breaks index (text ++ rest) lexNumber (.between index (text ++ rest)) := by
  obtain ⟨mark, more, rfl, hmark⟩ := startsIn_one hm
  refine breaks_lexNumber hn hmark fun power hp he => ?_
  obtain ⟨tail, hpower⟩ := hp
  rw [← hpower] at hlong
  have hne : power ≠ [] := by
    rintro rfl
    cases he
  exact hlong.not_lexeme form_number hne (hn.appendExponent he).lexeme

/-- There is a next token, or reading one fails. -/
theorem lexToken_cases (index : Nat) (hne : source ≠ []) (hs : startsIn [isSpace] source = false)
    (hc : startsComment source = false) :
    (∃ token rest, Next source token rest) ∨
      Breaks index source lexToken (.between index source) := by
  -- The rule for numbers is the only one whose longest text can be in front of an exponent mark.
  have hnext (kind : Kind) {text : List Char} (hk : kind.form = formOf source) (hl : Lexeme kind text)
      (ht : text <+: source) : (∃ token rest, Next source token rest) ∨
        Breaks index source lexToken (.between index source) := by
    refine (exists_next hc hk hl ht).imp_right ?_
    rintro ⟨fraction, text, rest, rfl, hn, hform, hm, hlong⟩
    rw [Breaks, lexToken_apply, hform]
    exact breaks_of_longest hn hm hlong
  have hstarts (kind : Kind) (hk : kind.form = formOf source) := starts_of_formOf hk hne hs
  cases hform : formOf source with
  | identifier =>
      obtain ⟨c, tail, rfl, h⟩ := startsIn_one (hstarts .identifier hform.symm)
      have hl : Lexeme .identifier [c] := .identifier h (by simp)
      exact hnext .identifier hform.symm hl ⟨tail, rfl⟩
  | number =>
      rcases Bool.or_eq_true _ _ ▸ hstarts .integer hform.symm with h | h
      · obtain ⟨c, d, tail, rfl, hc, hd⟩ := startsIn_two h
        have hn : Number false false [c, d] := .parts (.present hc) (.single hd) .absent .absent
        exact hnext .integer hform.symm (.integer hn) ⟨tail, rfl⟩
      · obtain ⟨d, tail, rfl, hd⟩ := startsIn_one h
        have hn : Number false false [d] := .parts .absent (.single hd) .absent .absent
        exact hnext .integer hform.symm (.integer hn) ⟨tail, rfl⟩
  | character =>
      obtain ⟨c, tail, rfl, hquote⟩ := startsIn_one (hstarts .character hform.symm)
      obtain rfl : c = '\'' := by simpa [only] using hquote
      rcases lexCharacter_cases index tail with ⟨body, tail, rfl, h⟩ | h
      · exact hnext .character hform.symm (.character h) ⟨tail, by simp⟩
      · rw [Breaks, lexToken_apply, hform]
        exact .inr h
  | string =>
      obtain ⟨c, tail, rfl, hquote⟩ := startsIn_one (hstarts .string hform.symm)
      obtain rfl : c = '"' := by simpa [only] using hquote
      rcases lexString_cases index tail with ⟨body, tail, rfl, h⟩ | h
      · exact hnext .string hform.symm (.string h) ⟨tail, by simp⟩
      · rw [Breaks, lexToken_apply, hform]
        exact .inr h
  | operator =>
      obtain ⟨c, tail, rfl, h⟩ := startsIn_one (hstarts .operator hform.symm)
      exact hnext .operator hform.symm (.symbol h) ⟨tail, rfl⟩

end Cases

/-- The longest run of a class at the front of a source. -/
theorem exists_run (inClass : Char → Bool) (source : List Char) :
    ∃ run rest, source = run ++ rest ∧ (∀ c ∈ run, inClass c = true) ∧
      startsIn [inClass] rest = false := by
  induction source with
  | nil => exact ⟨[], [], rfl, by simp, rfl⟩
  | cons c source ih =>
      cases hc : inClass c with
      | false => exact ⟨[], c :: source, rfl, by simp, by simp [startsIn, hc]⟩
      | true =>
          obtain ⟨run, rest, rfl, hrun, hrest⟩ := ih
          exact ⟨c :: run, rest, rfl, List.forall_mem_cons.mpr ⟨hc, hrun⟩, hrest⟩

/-- A comment goes up to the end of its line. -/
theorem exists_comment {source : List Char} (h : startsComment source = true) :
    ∃ text rest, source = '/' :: '/' :: (text ++ rest) ∧ '\n' ∉ text ∧
      (rest = [] ∨ rest.head? = some '\n') := by
  obtain ⟨a, b, tail, rfl, ha, hb⟩ := startsIn_two h
  obtain rfl : a = '/' := by simpa [only] using ha
  obtain rfl : b = '/' := by simpa [only] using hb
  obtain ⟨text, rest, rfl, ht, hr⟩ := exists_run (· ≠ '\n') tail
  refine ⟨text, rest, rfl, fun hn => by simpa using ht _ hn, ?_⟩
  cases rest with
  | nil => exact .inl rfl
  | cons c rest => exact .inr (by simpa [startsIn] using hr)

namespace Cuts
variable {source rest left : List Char} {tokens : List Token}

theorem spaces {gap : List Char} (hg : ∀ c ∈ gap, isSpace c = true) (h : Cuts rest tokens left) :
    Cuts (gap ++ rest) tokens left := by
  induction gap with
  | nil => exact h
  | cons c gap ih =>
      obtain ⟨hc, hgap⟩ := List.forall_mem_cons.mp hg
      exact .space hc (ih hgap)

theorem wellSpelled (h : Cuts source tokens left) : ∀ token ∈ tokens, token.WellSpelled := by
  induction h with
  | stop => simp
  | space _ _ ih => exact ih
  | comment _ _ _ ih => exact ih
  | token ht _ ih => exact List.forall_mem_cons.mpr ⟨ht.spelled, ih⟩

/-- A comment goes up to the end of its line. -/
theorem dropWhile_comment {text : List Char} (ht : '\n' ∉ text)
    (hr : rest = [] ∨ rest.head? = some '\n') :
    (text ++ rest).dropWhile (· ≠ '\n') = rest := by
  rw [List.dropWhile_append_of_pos]
  · rcases hr with rfl | hr
    · rfl
    · cases rest with
      | nil => rfl
      | cons c rest => simp_all
  · intro c hc
    simpa using fun h : c = '\n' => ht (h ▸ hc)

/-- From a comment on, cutting goes on behind it. -/
theorem behind_comment {text : List Char} (ht : '\n' ∉ text)
    (hr : rest = [] ∨ rest.head? = some '\n')
    (h : Cuts ('/' :: '/' :: (text ++ rest)) tokens left) (hl : left = [] ∨ Stuck left) :
    Cuts rest tokens left := by
  generalize hs : '/' :: '/' :: (text ++ rest) = source at h
  cases h with
  | stop =>
      subst hs
      rcases hl with hl | hl
      · cases hl
      · cases hl.noComment
  | space hc h =>
      cases hs
      cases hc
  | comment ht' hr' h =>
      injection hs with _ hs
      injection hs with _ hs
      rw [← dropWhile_comment ht hr, hs, dropWhile_comment ht' hr']
      exact h
  | token ht' h =>
      subst hs
      cases ht'.noComment

/-- A source that can be cut up is cut in one way, and no cutting of it gets stuck. -/
theorem unique {tokens' : List Token} {left' : List Char} (h : Cuts source tokens left)
    (hl : left = []) (h' : Cuts source tokens' left') (hl' : left' = [] ∨ Stuck left') :
    left' = [] ∧ tokens' = tokens := by
  induction h generalizing tokens' with
  | stop =>
      subst hl
      cases h' with
      | stop => exact ⟨rfl, rfl⟩
      | token ht _ =>
          obtain ⟨_, _, hne, _⟩ := ht.head
          cases hne
  | @space c rest tokens left hc _ ih =>
      cases h' with
      | stop =>
          rcases hl' with hl' | hl'
          · cases hl'
          · have hno := hl'.noSpace
            simp [startsIn, hc] at hno
      | space _ h => exact ih hl h
      | comment => cases hc
      | token ht _ =>
          obtain ⟨_, _, heq, hno⟩ := ht.head
          cases heq
          rw [hc] at hno
          cases hno
  | comment ht hr _ ih => exact ih hl (h'.behind_comment ht hr hl')
  | @token source rest token tokens left ht _ ih =>
      obtain ⟨c, tail, rfl, hc⟩ := ht.head
      cases h' with
      | stop =>
          rcases hl' with hl' | hl'
          · cases hl'
          · exact absurd ht (hl'.noToken _ _)
      | space hc' _ =>
          rw [hc] at hc'
          cases hc'
      | comment => cases ht.noComment
      | token ht' h =>
          obtain ⟨rfl, rfl⟩ := ht.unique ht'
          obtain ⟨hnil, rfl⟩ := ih hl h
          exact ⟨hnil, rfl⟩

end Cuts

/-- What a run of the lexer from `index` on comes to: it cuts up the whole source, or it fails at a
token that cannot be cut off. -/
inductive Settled (index : Nat) (source : List Char) (lexing : Lexing) : Prop
  | read (hc : Cuts source lexing.tokens []) (he : lexing.error = none)
  | failed (before : List Char) {left : List Char} {error : LexError} (hs : source = before ++ left)
      (hc : Cuts source lexing.tokens left) (hl : Stuck left) (he : lexing.error = some error)
      (hcause : error.cause.OfLiteral)
      (hstart : lexing.offsets.getLast? = some (index + before.length))
      (hlow : index + before.length ≤ error.offset) (hhigh : error.offset ≤ index + source.length)

namespace Settled
variable {index : Nat} {rest : List Char} {lexing : Lexing}

/-- A run may start with what is skipped. -/
theorem behind (gap : List Char)
    (hgap : ∀ {tokens left}, Cuts rest tokens left → Cuts (gap ++ rest) tokens left)
    (h : Settled (index + gap.length) rest lexing) : Settled index (gap ++ rest) lexing := by
  cases h with
  | read hc he => exact .read (hgap hc) he
  | @failed before left error hs hc hl he hcause hstart hlow hhigh =>
      refine .failed (gap ++ before) ?_ (hgap hc) hl he hcause ?_ ?_ ?_
      · rw [hs, List.append_assoc]
      · rw [hstart, List.length_append, Nat.add_assoc]
      · simp only [List.length_append]
        omega
      · simp only [List.length_append]
        omega

/-- A run may start with a token. -/
theorem token {source : List Char} {token : Token} (ht : Next source token rest)
    (h : Settled (index + token.literal.toList.length) rest lexing) :
    Settled index source
      { lexing with tokens := token :: lexing.tokens, offsets := index :: lexing.offsets } := by
  cases h with
  | read hc he => exact .read (.token ht hc) he
  | @failed before left error hs hc hl he hcause hstart hlow hhigh =>
      have hsplit := ht.split
      refine .failed (token.literal.toList ++ before) ?_ (.token ht hc) hl he hcause ?_ ?_ ?_
      · rw [hsplit, hs, List.append_assoc]
      · simp [List.getLast?_cons, hstart, Nat.add_assoc]
      · simp only [List.length_append]
        omega
      · simp only [hsplit, List.length_append]
        omega

end Settled

section Loop
variable {room : Nat} {c d : Cursor}

theorem lexLoop_of_space (hs : startsIn [isSpace] c.rest = true) (h : Steps lexSpace c () d) :
    lexLoop (room + 1) c = lexLoop room d := by
  obtain ⟨_, _, hr, _⟩ := startsIn_one hs
  have hne : ¬c.rest.isEmpty = true := by simp [hr]
  have hlook : c.looksAt [isSpace] = true := hs
  rw [Steps] at h
  simp only [lexLoop, if_neg hne, if_pos hlook, h]

theorem lexLoop_of_comment (hs : startsIn [isSpace] c.rest = false)
    (hc : startsComment c.rest = true) (h : Steps lexComment c () d) :
    lexLoop (room + 1) c = lexLoop room d := by
  obtain ⟨_, _, _, hr, _⟩ := startsIn_two hc
  have hne : ¬c.rest.isEmpty = true := by simp [hr]
  have hspace : ¬c.looksAt [isSpace] = true := Bool.eq_false_iff.mp hs
  have hlook : c.looksAt [only '/', only '/'] = true := hc
  rw [Steps] at h
  simp only [lexLoop, if_neg hne, if_neg hspace, if_pos hlook, h]

variable (hne : c.rest ≠ []) (hs : startsIn [isSpace] c.rest = false)
  (hc : startsComment c.rest = false)
include hne hs hc

theorem lexLoop_of_token {token : Token} (h : Steps lexToken c token d) :
    lexLoop (room + 1) c =
      { lexLoop room d with
        tokens := token :: (lexLoop room d).tokens
        offsets := c.index :: (lexLoop room d).offsets } := by
  have hempty : ¬c.rest.isEmpty = true := by simpa using hne
  have hspace : ¬c.looksAt [isSpace] = true := Bool.eq_false_iff.mp hs
  have hcomment : ¬c.looksAt [only '/', only '/'] = true := Bool.eq_false_iff.mp hc
  rw [Steps] at h
  simp only [lexLoop, if_neg hempty, if_neg hspace, if_neg hcomment, h]

theorem lexLoop_of_error {error : LexError} (h : lexToken c = .error error d) :
    lexLoop (room + 1) c = ⟨[], [c.index], some error, d⟩ := by
  have hempty : ¬c.rest.isEmpty = true := by simpa using hne
  have hspace : ¬c.looksAt [isSpace] = true := Bool.eq_false_iff.mp hs
  have hcomment : ¬c.looksAt [only '/', only '/'] = true := Bool.eq_false_iff.mp hc
  simp only [lexLoop, if_neg hempty, if_neg hspace, if_neg hcomment, h]

end Loop

/-- A run of the lexer with room for every character. What holds at the end of a source and where nothing
can be cut off, and is carried over white space, comments and tokens, holds of the whole run. -/
theorem lexLoop_induction {P : (index : Nat) → (source : List Char) → (lexing : Lexing) → Prop}
    (stop : ∀ index, P index [] ⟨[], [], none, .between index []⟩)
    (space : ∀ index gap rest lexing, gap ≠ [] → (∀ c ∈ gap, isSpace c = true) →
      startsIn [isSpace] rest = false → P (index + gap.length) rest lexing →
      P index (gap ++ rest) lexing)
    (comment : ∀ index text rest lexing, '\n' ∉ text → (rest = [] ∨ rest.head? = some '\n') →
      P (index + ('/' :: '/' :: text).length) rest lexing →
      P index ('/' :: '/' :: (text ++ rest)) lexing)
    (token : ∀ index source token rest lexing, Next source token rest →
      P (index + token.literal.toList.length) rest lexing →
      P index source
        { lexing with tokens := token :: lexing.tokens, offsets := index :: lexing.offsets })
    (stuck : ∀ index source error cursor, Stuck source →
      lexToken (.between index source) = .error error cursor → error.cause.OfLiteral →
      index ≤ error.offset → error.offset ≤ index + source.length →
      P index source ⟨[], [index], some error, cursor⟩)
    {room index : Nat} {source : List Char} (hr : source.length ≤ room) :
    P index source (lexLoop room (.between index source)) := by
  induction room generalizing index source with
  | zero =>
      obtain rfl : source = [] := List.length_eq_zero_iff.mp (Nat.le_zero.mp hr)
      exact stop index
  | succ room ih =>
      by_cases hne : source = []
      · subst hne
        exact stop index
      cases hs : startsIn [isSpace] source with
      | true =>
          obtain ⟨gap, rest, rfl, hgap, hstop⟩ := exists_run isSpace source
          have hgapne : gap ≠ [] := by
            rintro rfl
            rw [List.nil_append, hstop] at hs
            cases hs
          have hlt : 0 < gap.length := List.length_pos_iff.mpr hgapne
          rw [lexLoop_of_space hs (steps_lexSpace hgap hstop)]
          simp only [List.length_append] at hr
          exact space _ _ _ _ hgapne hgap hstop (ih (by omega))
      | false =>
          cases hc : startsComment source with
          | true =>
              obtain ⟨text, rest, rfl, ht, hend⟩ := exists_comment hc
              rw [lexLoop_of_comment hs hc (steps_lexComment ht hend)]
              simp only [List.length_append, List.length_cons] at hr
              exact comment _ _ _ _ ht hend (ih (by omega))
          | false =>
              rcases lexToken_cases index hne hs hc with ⟨token', rest, ht⟩ | hbreak
              · obtain ⟨c, tail, htext, -⟩ := ht.spelled.head
                have hlength := congrArg List.length ht.split
                simp only [htext, List.length_append, List.length_cons] at hlength
                rw [lexLoop_of_token hne hs hc (ht.steps index)]
                exact token _ _ _ _ _ ht (ih (by omega))
              · obtain ⟨error, d, herror, hcause, hlow, hhigh⟩ := hbreak
                have hno : ∀ token rest, ¬Next source token rest := by
                  intro token rest ht
                  have heq := (ht.steps index).symm.trans herror
                  cases heq
                rw [lexLoop_of_error hne hs hc herror]
                exact stuck _ _ _ _ ⟨hne, hs, hc, hno⟩ herror hcause hlow hhigh

/-- With room for every character a run of the lexer cuts the source up or gets stuck. -/
theorem settled_lexLoop {room index : Nat} {source : List Char} (hr : source.length ≤ room) :
    Settled index source (lexLoop room (.between index source)) := by
  refine lexLoop_induction ?_ ?_ ?_ ?_ ?_ hr
  · intro index
    exact .read (.stop []) rfl
  · intro index gap rest lexing _ hgap _ h
    exact .behind gap (.spaces hgap) h
  · intro index text rest lexing ht hend h
    exact Settled.behind ('/' :: '/' :: text) (.comment ht hend) h
  · intro index source token rest lexing ht h
    exact .token ht h
  · intro index source error cursor hstuck _ hcause hlow hhigh
    exact .failed [] rfl (.stop source) hstuck rfl hcause rfl hlow hhigh

/-- The lexer reads the tokens into which a source can be cut up. -/
theorem lex_of_cuts {source : String} {tokens : List Token} (h : Cuts source.toList tokens []) :
    (lex source).error = none ∧ (lex source).tokens = tokens := by
  have hsettled : Settled 0 source.toList (lex source) := settled_lexLoop (Nat.le_refl _)
  cases hsettled with
  | read hc he => exact ⟨he, (h.unique rfl hc (.inl rfl)).2⟩
  | failed _ _ hc hl => exact absurd (h.unique rfl hc (.inr hl)).1 hl.nonempty

/-- What the lexer reads, it has cut up. -/
theorem cuts_of_lex {source : String} (h : (lex source).error = none) :
    Cuts source.toList (lex source).tokens [] := by
  have hsettled : Settled 0 source.toList (lex source) := settled_lexLoop (Nat.le_refl _)
  cases hsettled with
  | read hc _ => exact hc
  | failed _ _ _ _ he =>
      rw [he] at h
      cases h

/-- A token that is read somewhere is one of the grammar, also where the reading fails behind it. -/
theorem Emitted.wellSpelled {token : Token} (h : token.Emitted) : token.WellSpelled := by
  obtain ⟨source, hmem⟩ := h
  have hsettled : Settled 0 source.toList (lex source) := settled_lexLoop (Nat.le_refl _)
  cases hsettled with
  | read hc _ => exact hc.wellSpelled token hmem
  | failed _ _ hc => exact hc.wellSpelled token hmem

/-- A source can be cut up exactly if the lexer reads it, and then into the tokens that it reads. If it
cannot, then the lexer fails inside a number or a quoted literal, behind the start of the token from
which on nothing can be cut off. -/
theorem lex_cuts_exactly (source : String) :
    (∀ tokens, (lex source).error = none ∧ (lex source).tokens = tokens ↔
      Cuts source.toList tokens []) ∧
    ((¬∃ tokens, Cuts source.toList tokens []) →
      ∃ error before left, (lex source).error = some error ∧ error.cause.OfLiteral ∧
        source.toList = before ++ left ∧ Cuts source.toList (lex source).tokens left ∧ Stuck left ∧
        (lex source).offsets.getLast? = some before.length ∧
        before.length ≤ error.offset ∧ error.offset ≤ source.length) := by
  constructor
  · intro tokens
    constructor
    · rintro ⟨h, rfl⟩
      exact cuts_of_lex h
    · exact lex_of_cuts
  · intro hno
    have hsettled : Settled 0 source.toList (lex source) := settled_lexLoop (Nat.le_refl _)
    cases hsettled with
    | read hc _ => exact absurd ⟨_, hc⟩ hno
    | @failed before left error hs hc hl he hcause hstart hlow hhigh =>
        simp only [Nat.zero_add, String.length_toList] at hstart hlow hhigh
        exact ⟨error, before, left, he, hcause, hs, hc, hl, hstart, hlow, hhigh⟩

/-- A source with a comment, a signed number and an exponent without digits. -/
theorem lex_cuts_exactly_exponent :
    let source := "x<=-1.5//e\n+ 2e+;"
    (¬∃ tokens, Cuts source.toList tokens []) ∧
    ∃ error before left, (lex source).error = some error ∧ error.cause.OfLiteral ∧
      source.toList = before ++ left ∧ Cuts source.toList (lex source).tokens left ∧ Stuck left ∧
      (lex source).offsets.getLast? = some before.length ∧
      before.length ≤ error.offset ∧ error.offset ≤ source.length := by
  intro source
  have hno : ¬∃ tokens, Cuts source.toList tokens [] := by
    rintro ⟨tokens, h⟩
    have herror := (((lex_cuts_exactly source).1 tokens).mpr h).1
    revert herror
    decide
  exact ⟨hno, (lex_cuts_exactly source).2 hno⟩

end ProtoScript.Token
