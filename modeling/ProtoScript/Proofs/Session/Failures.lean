import ProtoScript.Proofs.Literal.Spelling
import ProtoScript.Proofs.Token.Lines
import ProtoScript.Proofs.Tree.Stops
import ProtoScript.Report.Reporter
import ProtoScript.Session.Source

/-!
# Failures of units

Something is told about every failure, and work goes on behind it unless the interpreter has broken down. A
unit is not read because of a malformed token, or because its tokens are no program. What is told then can
be written, and it has a place in the unit: if the unit consists of whole lines, a character on one of them.
The interpreter breaks down over a unit only at a number: at one that is too long to be read or too large to
be held, or when the unit is run.
-/

namespace ProtoScript

namespace Failure

/-- What is told about a failure. -/
def told : Failure → Report
  | .lex e => .atOffset e.cause.message e.offset
  | .parse e location => { Report.plain e.message with offset := location.map Int.ofNat }
  | .eval e => { Report.plain e.cause.message with diagnosis := false }
  | .general report => report
  | .endless => .plain (.one "maximum recursion depth exceeded" "")
  | .breakdown b => .unknown b

/-- What becomes of work that fails under a guard that is not fatal. -/
def ending : Failure → Reporter.Ending
  | .breakdown _ => .escapes
  | _ => .resumes

theorem guard_signal (r : Reporter) (terminal : Text.Style) (failure : Failure) :
    r.guard terminal failure.signal = r.settle terminal failure.told failure.ending := by
  cases failure <;> rfl

theorem told_ofFault (fault : Fault) : (Failure.ofFault fault).told.offset = none := by
  cases fault <;> rfl

end Failure

/-- The last line end of a text is a blank that is cut off. -/
theorem Text.length_dropBlankEnd_lt {chars : List Char} (h : chars.getLast? = some '\n') :
    (dropBlankEnd chars).length < chars.length := by
  obtain ⟨front, rfl⟩ := List.getLast?_eq_some_iff.mp h
  have hblank : isBlank '\n' = true := rfl
  have hle := (List.dropWhile_suffix isBlank (l := front.reverse)).length_le
  simp only [dropBlankEnd, List.reverse_append, List.reverse_singleton, List.singleton_append,
    List.dropWhile_cons, hblank, if_true, List.length_reverse, List.length_append,
    List.length_singleton] at hle ⊢
  omega

section Reading
variable {source : String} {failure : Failure}

/-- Why a unit is not read. -/
inductive Unread (source : String) : Failure → Prop
  | malformed {e : Token.LexError} (he : (Token.lex source).error = some e) : Unread source (.ofLex e)
  | misfit {fault : ParseFault} (he : (Token.lex source).error = none)
      (hp : Parser.parse .source (Token.lex source).tokens = .error fault) :
      Unread source (.ofParse (some ∘ misfitOffset source (Token.lex source).offsets) fault)

theorem unread_of_parseUnit (h : parseUnit source = .error failure) : Unread source failure := by
  cases herror : (Token.lex source).error with
  | some e =>
      simp only [parseUnit, readTokens, herror, Bind.bind, Except.bind] at h
      cases h
      exact .malformed herror
  | none =>
      cases hparse : Parser.parse .source (Token.lex source).tokens with
      | ok node => simp [parseUnit, readTokens, herror, hparse, Bind.bind, Except.bind] at h
      | error fault =>
          simp only [parseUnit, readTokens, herror, hparse, Bind.bind, Except.bind] at h
          cases h
          exact .misfit herror hparse

theorem Failure.ofLex_of_lex {e : Token.LexError} (h : (Token.lex source).error = some e) :
    Failure.ofLex e = .lex e := by
  have hsettled : Token.Settled 0 source.toList (Token.lex source) :=
    Token.settled_lexLoop (Nat.le_refl _)
  cases hsettled with
  | read hc hnone => cases hnone.symm.trans h
  | @failed before left error hs hc hl he hcause =>
      obtain rfl : error = e := Option.some.inj (he.symm.trans h)
      have hend : error.cause ≠ .sourceEnd := by
        intro hend
        rw [hend] at hcause
        exact hcause
      exact if_neg hend

theorem misfitOffset_lt (hs : source.toList.getLast? = some '\n') (he : (Token.lex source).error = none)
    (e : ParseError) : misfitOffset source (Token.lex source).offsets e < source.length := by
  rw [misfitOffset]
  cases hoffset : (Token.lex source).offsets[e.index]? with
  | none => exact String.length_toList ▸ Text.length_dropBlankEnd_lt hs
  | some offset => exact Token.offsets_lt_of_lex he offset (List.mem_of_getElem? hoffset)

/-- What is told about a unit of whole lines is shown at a character of it, if it has a place. -/
theorem Unread.located {offset : Int} (h : Unread source failure)
    (hs : source.toList.getLast? = some '\n') (ho : failure.told.offset = some offset) :
    failure.told.diagnosis = true ∧ failure.told.internal = false ∧
      ∃ n : Nat, offset = n ∧ n < source.length := by
  cases h with
  | @malformed e he =>
      rw [Failure.ofLex_of_lex he] at ho ⊢
      cases ho
      exact ⟨rfl, rfl, e.offset, rfl, Token.offset_lt_of_lex hs he⟩
  | @misfit fault he hp =>
      cases fault with
      | error e =>
          cases ho
          exact ⟨rfl, rfl, _, rfl, misfitOffset_lt hs he e⟩
      | unusable reason => cases ho
      | tooDeep => cases ho

theorem Token.Malformed.defect?_message (cause : Token.Malformed) : cause.message.defect? = none := by
  cases cause with
  | sourceEnd => decide
  | exponent | character | openCharacter | openString | escape | symbol =>
      exact Text.Message.defect?_one _ (by decide)

/-- What is told about a breakdown can be written. -/
theorem Report.defect?_unknown (b : Breakdown) : (Report.unknown b).message.defect? = none :=
  Text.Message.defect?_one _ (by decide)

/-- What is told about a unit that is not read can be written. -/
theorem Unread.defect?_told (h : Unread source failure) : failure.told.message.defect? = none := by
  cases h with
  | @malformed e he =>
      rw [Failure.ofLex_of_lex he]
      exact e.cause.defect?_message
  | misfit he hp =>
      rcases Grammar.parse_fails_grounded hp with ⟨e, rfl, hlegible⟩ | ⟨reason, rfl, -⟩
      · exact hlegible
      · exact Report.defect?_unknown _

/-- The interpreter cannot deal with a number: with one that the unit spells and that is therefore not read,
or with one that has to be written or worked out when the unit is run. -/
inductive HostLimit (source : String) : Breakdown → Prop
  | tooLong {token : Token} {count : Nat}
      (hp : parseUnit source = .error (.breakdown (.unusable (.tooManyDigits count))))
      (ht : token ∈ (Token.lex source).tokens) (hu : Grammar.Useless token (.tooManyDigits count))
      (hc : Numeral.maxDigits < count) : HostLimit source (.unusable (.tooManyDigits count))
  | tooLarge {token : Token} (hp : parseUnit source = .error (.breakdown (.unusable .unrepresentable)))
      (ht : token ∈ (Token.lex source).tokens) (hu : Grammar.Useless token .unrepresentable) :
      HostLimit source (.unusable .unrepresentable)
  | unwritable {program : Node} (hp : parseUnit source = .ok program) : HostLimit source .digitLimit
  | refused {program : Node} (hp : parseUnit source = .ok program) (limit : Decimal.Limit) :
      HostLimit source (.limit limit)

theorem hostLimit_of_parseUnit {b : Breakdown} (h : parseUnit source = .error (.breakdown b)) :
    HostLimit source b := by
  generalize hb : Failure.breakdown b = failure at h
  cases unread_of_parseUnit h with
  | @malformed e he =>
      rw [Failure.ofLex_of_lex he] at hb
      cases hb
  | misfit he hp =>
      rcases Grammar.parse_fails_grounded hp with ⟨e, rfl, -⟩ | ⟨reason, rfl, token, ht, hu⟩
      · cases hb
      · cases hb
        have hspelled := (Token.cuts_of_lex he).wellSpelled token ht
        rcases Literal.unusable_of_wellSpelled hspelled hu.1 hu.2 with ⟨count, hc, rfl⟩ | rfl
        · exact .tooLong h ht hu hc
        · exact .tooLarge h ht hu

end Reading

end ProtoScript
