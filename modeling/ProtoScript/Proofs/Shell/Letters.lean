import ProtoScript.Proofs.Session.Letters
import ProtoScript.Proofs.Shell.Entry

/-!
# The letters of a shell

If typed lines are spelled in an alphabet, then so is everything that a shell writes on a plain terminal, and
everything that it keeps for later lines.
-/

namespace ProtoScript
open ProtoScript.Text ProtoScript.Text.Alphabet

namespace Shell
open Session

section Dialogues
variable (shell : Shell) (terminal : Style)

theorem converse_of_continues {line : String} (h : (shell.takeLine terminal line).answer = .continues)
    (rest : List String) :
    shell.converse terminal (line :: rest) =
      let later := (shell.takeLine terminal line).shell.converse terminal rest
      { later with
        output := shell.prompt.text ++ (shell.takeLine terminal line).output ++ later.output } := by
  simp only [converse, h]

theorem converse_of_ends {line : String} (h : (shell.takeLine terminal line).answer ≠ .continues)
    (rest : List String) :
    shell.converse terminal (line :: rest) =
      { answer := (shell.takeLine terminal line).answer
        output := shell.prompt.text ++ (shell.takeLine terminal line).output
        shell := (shell.takeLine terminal line).shell } := by
  rw [converse]
  split
  · next hanswer => exact absurd hanswer h
  · rfl

end Dialogues

variable {A : Alphabet} {shell : Shell} {s : Session} {line : String} {lines : List String}

/-- Everything in the shell is spelled in the alphabet. -/
structure In (A : Alphabet) (shell : Shell) : Prop where
  session : shell.session.In A
  buffer : A.Spells shell.buffer

/-- Everything in the reply is spelled in the alphabet. -/
structure Reply.In (A : Alphabet) (reply : Reply) : Prop where
  output : A.Spells reply.output
  shell : reply.shell.In A
  failure : ∀ failure, reply.answer = .fails failure → failure.In A

/-- Everything in the dialogue is spelled in the alphabet. -/
structure Dialogue.In (A : Alphabet) (dialogue : Dialogue) : Prop where
  output : A.Spells dialogue.output
  shell : dialogue.shell.In A
  failure : ∀ failure, dialogue.answer = .fails failure → failure.In A

theorem spells_prompt (prompt : Prompt) : A.Spells prompt.text := by
  cases prompt <;> exact spells_word (by decide)

theorem Reply.In.last {reply : Reply} (h : reply.In A) (prompt : Prompt) :
    Dialogue.In A ⟨reply.answer, prompt.text ++ reply.output, reply.shell⟩ :=
  ⟨(spells_prompt prompt).append h.output, h.shell, h.failure⟩

theorem letters_showValue (h : s.In A) {value : Value} (hv : (Stock.spelled A).Holds value) :
    Safe (Session.In A) (Failure.In A) (showValue value s) := by
  unfold showValue
  cases hsame : value.equals .nil with
  | error fault =>
      exact .error h (Failure.in_ofFault (equals_failsOnly Stock.admits_notAValue _ _ fault hsame))
  | ok same =>
      cases same with
      | true => exact .ok h
      | false =>
          simp only [Eval.bind_apply, get_apply]
          cases hshown : display s.state.heap value with
          | ok text =>
              have htext : A.Spells text := Stock.gives_display h.state.heap hv text hshown
              refine .ok ⟨h.reporter, h.path, h.queue, h.results, h.state.heap, ?_⟩
              intro event he
              rcases Array.mem_push.mp he with he | rfl
              · exact h.state.output event he
              · exact htext
          | error fault =>
              exact .error h (Failure.in_ofFault
                (display_failsOnly Stock.admits_digitLimit trivial _ _ fault hshown))

theorem letters_showResult (h : s.In A) : Safe (Session.In A) (Failure.In A) (showResult s) := by
  cases hresults : s.results with
  | nil =>
      rw [showResult_of_nil hresults]
      exact .ok h
  | cons value earlier =>
      have hvalues := h.results
      rw [hresults] at hvalues
      obtain ⟨hvalue, hearlier⟩ := List.forall_mem_cons.mp hvalues
      have hrest : Session.In A { s with results := earlier } :=
        ⟨h.reporter, h.path, h.queue, hearlier, h.state⟩
      rw [showResult_of_cons hresults]
      exact letters_showValue hrest hvalue

theorem letters_useUnit (h : s.In A) {text : String} (ht : A.Spells text) (number : Int) :
    Safe (Session.In A) (Failure.In A) (useUnit text number s) := by
  refine .bind (h.enqueue ht number) fun _ t _ ht => ?_
  exact .bind ht.run fun _ u _ hu => letters_showResult hu

theorem spells_helpText : A.Spells helpText := by
  unfold helpText
  refine (((Spells.append ?_ ?_).append ?_).append ?_).append ?_ <;> exact spells_word (by decide)

/-- A line of program is the typed line without the blanks around it. -/
theorem eq_trim_of_program {text : String} (h : Command.ofLine line = .program text) : text = trim line := by
  unfold Command.ofLine at h
  simp only at h
  split at h
  · cases h
  · cases h
  · cases h
    rfl
  · split at h <;> cases h
    rfl

namespace In

theorem start {reporter : Reporter} (hr : reporter.In A) : (Shell.start reporter).In A :=
  ⟨.start hr (spells_word (by decide)) true, spells_empty⟩

variable (h : shell.In A)
include h

theorem enter (hl : A.Spells line) :
    (∀ t, Shell.enter line shell = .ok () t → t.In A) ∧
      ∀ failure t, Shell.enter line shell = .error failure t → t.In A ∧ failure.In A := by
  have hextended : A.Spells (shell.extended line) := (h.buffer.append hl).append (spells_word (by decide))
  have hunit : Safe (Session.In A) (Failure.In A)
      (useUnit (shell.extended line) shell.firstNumber shell.completed.session) :=
    letters_useUnit h.session hextended shell.firstNumber
  rw [enter_apply]
  split
  · refine ⟨?_, ?_⟩
    · rintro t ⟨⟩
      exact ⟨h.session, hextended⟩
    · rintro failure t ⟨⟩
  · unfold inSession
    generalize useUnit (shell.extended line) shell.firstNumber shell.completed.session = result at hunit
    cases hunit with
    | ok ht =>
        refine ⟨?_, ?_⟩
        · rintro t ⟨⟩
          exact ⟨ht, spells_empty⟩
        · rintro failure t ⟨⟩
    | error ht hf =>
        refine ⟨?_, ?_⟩
        · rintro t ⟨⟩
        · rintro failure t ⟨⟩
          exact ⟨⟨ht, spells_empty⟩, hf⟩

theorem runLine (hl : A.Spells line) : (shell.runLine .plain line).In A := by
  obtain ⟨hok, herror⟩ := h.enter hl
  unfold Shell.runLine
  cases henter : Shell.enter line shell with
  | ok _ t =>
      have ht := hok t henter
      exact ⟨ht.session.spells_flush, ⟨ht.session.flush .plain, ht.buffer⟩, by simp⟩
  | error failure t =>
      obtain ⟨ht, hf⟩ := herror failure t henter
      have hflush := ht.session.flush .plain
      obtain ⟨houtput, hreporter⟩ := hflush.reporter.guard hf
      have hsession : Session.In A { (t.session.flush .plain).2 with
          reporter := ((t.session.flush .plain).2.reporter.guard .plain failure.signal).reporter } :=
        ⟨hreporter, hflush.path, hflush.queue, hflush.results, hflush.state⟩
      refine ⟨ht.session.spells_flush.append houtput, ⟨hsession, ht.buffer⟩, ?_⟩
      intro failure' ha
      simp only at ha
      split at ha <;> cases ha
      exact hf

theorem takeLine (hl : A.Spells line) : (shell.takeLine .plain line).In A := by
  unfold Shell.takeLine
  cases hcommand : Command.ofLine line with
  | program text =>
      rw [eq_trim_of_program hcommand]
      exact h.runLine hl.trim
  | nothing => exact ⟨spells_empty, h, by simp⟩
  | help => exact ⟨spells_helpText.append (spells_word (by decide)), h, by simp⟩
  | exit => exact ⟨spells_empty, h, by simp⟩
  | endOfInput => exact ⟨spells_word (by decide), h, by simp⟩

theorem converse (hlines : ∀ line ∈ lines, A.Spells line) : (shell.converse .plain lines).In A := by
  induction lines generalizing shell with
  | nil => exact (h.takeLine (spells_word (by decide))).last shell.prompt
  | cons line rest ih =>
      obtain ⟨hline, hrest⟩ := List.forall_mem_cons.mp hlines
      have hreply := h.takeLine hline
      by_cases hc : (shell.takeLine .plain line).answer = .continues
      · have hlater := ih hreply.shell hrest
        rw [converse_of_continues _ _ hc]
        exact ⟨((spells_prompt _).append hreply.output).append hlater.output, hlater.shell, hlater.failure⟩
      · rw [converse_of_ends _ _ hc]
        exact hreply.last shell.prompt

end In

end Shell

end ProtoScript
