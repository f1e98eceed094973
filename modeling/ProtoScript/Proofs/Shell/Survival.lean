import ProtoScript.Proofs.Session.Soundness
import ProtoScript.Proofs.Shell.Entry

/-!
# Lines that a shell survives

Whatever is typed, at most one failure is reported, and the shell is ready for the next line. It goes on
by itself unless the interpreter has broken down over a number: one of the unit that is too long to be read
or too large to be held, one that is too long to be written, or a decimal that cannot be worked out.
-/

namespace ProtoScript

/-- What becomes of a unit that fails: it was not read, or it was run and failed as programs do. -/
inductive UnitFails (source : String) (failure : Failure) : Prop
  | unread (hp : parseUnit source = .error failure)
  | run {program : Node} (hp : parseUnit source = .ok program) (h : failure.Ordinary)

namespace UnitFails
variable {source : String} {failure : Failure}

theorem defect?_told (h : UnitFails source failure) : failure.told.message.defect? = none := by
  cases h with
  | unread hp => exact (unread_of_parseUnit hp).defect?_told
  | run _ h => exact h.defect?_told

theorem hostLimit {b : Breakdown} (h : UnitFails source (.breakdown b)) : HostLimit source b := by
  cases h with
  | unread hp => exact hostLimit_of_parseUnit hp
  | run hp h =>
      rcases h.of_breakdown with rfl | ⟨limit, rfl⟩
      · exact .unwritable hp
      · exact .refused hp limit

end UnitFails

namespace Shell
open Session

section Units
variable {s : Session}

/-- To show a result takes it away, and may write a line. -/
theorem reachable_showResult (h : s.Reachable) : (after (showResult s)).Reachable := by
  cases hresults : s.results with
  | nil =>
      rw [showResult_of_nil hresults]
      exact h
  | cons value earlier =>
      have htaken : after (takeResult s) = { s with results := earlier } := by
        obtain ⟨reporter, path, interactive, state, queue, results⟩ := s
        obtain rfl : results = value :: earlier := hresults
        rfl
      have hreach := h.takeResult
      rw [htaken] at hreach
      have hshown := shown_showValue value { s with results := earlier }
      rw [showResult_of_cons hresults]
      generalize showValue value { s with results := earlier } = r at hshown
      cases hshown with
      | done output => exact hreach.output output
      | failed fault => exact hreach

/-- A value that comes from programs of sources has a kind, so it can be compared with NIL. -/
theorem safe_showResult (h : s.Sound) : Safe (fun _ => True) Failure.Ordinary (showResult s) := by
  cases hresults : s.results with
  | nil =>
      rw [showResult_of_nil hresults]
      exact .ok trivial
  | cons value earlier =>
      have hvalue : value.Written := h.results value (hresults ▸ List.mem_cons_self)
      have hnil : Value.Written .nil := (Value.all_self rfl).mpr trivial
      obtain ⟨same, hsame⟩ := Value.exists_equals hvalue.proper hnil.proper
      rw [showResult_of_cons hresults]
      unfold showValue
      rw [hsame]
      cases same with
      | true => exact .ok trivial
      | false =>
          have hdisplay : FailsOnly Fault.Ordinary (display s.state.heap value) :=
            display_failsOnly Fault.ordinary_digitLimit trivial s.state.heap value
          simp only [Eval.bind_apply, get_apply]
          cases hshown : display s.state.heap value with
          | ok text => exact .ok trivial
          | error fault => exact .error trivial ⟨fault, hdisplay fault hshown, rfl⟩

theorem safe_useUnit (h : s.Reachable) (text : String) (number : Int) :
    Safe Reachable (UnitFails text) (useUnit text number s) := by
  refine .bind ((h.sound.enqueue text number).imp (h.enqueue text number) fun _ => .unread) ?_
  intro _ t hqueued ht
  obtain ⟨program, hparse⟩ : ∃ program, parseUnit text = .ok program := by
    cases hparse : parseUnit text with
    | ok program => exact ⟨program, rfl⟩
    | error failure =>
        rw [enqueue_of_error hparse] at hqueued
        cases hqueued
  refine .bind (ht.sound.run.imp ht.run fun _ => .run hparse) ?_
  intro _ u _ hu
  exact (safe_showResult hu.sound).imp (reachable_showResult hu) fun _ => .run hparse

end Units

variable {shell : Shell}

/-- What comes of a line: it is kept, or the unit that it finishes is used. -/
inductive Entered (shell : Shell) (line : String) : EStateM.Result Failure Shell Unit → Prop
  | kept (h : isUnfinished (shell.extended line) = true) : Entered shell line (.ok () (shell.continued line))
  | used {t : Session} (h : isUnfinished (shell.extended line) = false) (ht : t.Reachable) :
      Entered shell line (.ok () { shell.completed with session := t })
  | failed {t : Session} {failure : Failure} (h : isUnfinished (shell.extended line) = false)
      (ht : t.Reachable) (hf : UnitFails (shell.extended line) failure) :
      Entered shell line (.error failure { shell.completed with session := t })

theorem entered_enter (hs : shell.session.Reachable) (line : String) :
    Entered shell line (enter line shell) := by
  rw [enter_apply]
  cases h : isUnfinished (shell.extended line) with
  | true => exact .kept h
  | false =>
      have hsafe : Safe Reachable (UnitFails (shell.extended line))
          (useUnit (shell.extended line) shell.firstNumber shell.completed.session) :=
        safe_useUnit hs (shell.extended line) shell.firstNumber
      rw [if_neg Bool.false_ne_true]
      cases hresult : useUnit (shell.extended line) shell.firstNumber shell.completed.session with
      | ok _ t =>
          rw [inSession_of_ok hresult]
          exact .used h (hresult ▸ hsafe).after
      | error failure t =>
          rw [inSession_of_error hresult]
          rw [hresult] at hsafe
          cases hsafe with
          | error ht hf => exact .failed h ht hf

/-- The session behind a line, with everything still there that was written. -/
def behind (shell : Shell) (line : String) : Session :=
  match enter line shell with
  | .ok _ t => t.session
  | .error _ t => t.session

theorem reachable_cleared {t : Shell} (h : t.session.Reachable) :
    (t.cleared t.session.reporter).session.Reachable :=
  h.output #[]

/-- A report that is not fatal forgets the units in work. -/
theorem reachable_cleared_report {t : Shell} (h : t.session.Reachable) (terminal : Text.Style) :
    (t.cleared { t.session.reporter with traceback := {} }).session.Reachable := by
  have hreach := (h.guard terminal .interrupt).output #[]
  have hguard : (t.session.reporter.guard terminal .interrupt).reporter =
      { t.session.reporter with traceback := {} } := by
    rw [Reporter.guard, Reporter.settle, if_neg (Bool.eq_false_iff.mp h.sound.calm)]
  rwa [hguard] at hreach

/-- A unit that is not read decides the answer to its last line. -/
theorem answer_of_unread {failure : Failure} (hs : shell.session.Reachable) (line : String)
    (h : isUnfinished (shell.extended line) = false) (hp : parseUnit (shell.extended line) = .error failure)
    (terminal : Text.Style) : (shell.runLine terminal line).answer = .toFailure failure := by
  have hunit := inSession_of_error (useUnit_of_error hp shell.firstNumber shell.completed.session)
  have henter := (enter_apply line shell).trans ((if_neg (Bool.eq_false_iff.mp h)).trans hunit)
  rw [runLine_of_error henter hs.sound.calm]

/-- How a line is answered that makes its unit `unit` and leaves the session `t` behind. Everything that was
written comes first. No report follows it, or one whose message can be written. The shell does not go on
only if the interpreter has broken down over a number. -/
inductive Answered (unit : String) (t : Session) (terminal : Text.Style) (reply : Reply) : Prop
  | quietly (ho : reply.output = (t.flush terminal).1) (ha : reply.answer = .continues)
  | reporting {failure : Failure} (hm : failure.told.message.defect? = none)
      (ho : reply.output = (t.flush terminal).1 ++ t.reporter.reportText terminal failure.told)
      (ha : reply.answer = .continues ∨
        ∃ b, failure = .breakdown b ∧ HostLimit unit b ∧ reply.answer = .fails failure)

/-- A line is typed into a shell over any session at a prompt. Then the shell goes on, or the interpreter
has broken down over a number; in either case at most one failure is reported. A number over which a
finished unit is not read does end the shell. And the shell is ready for the next line: its session is again
one at a prompt, no report is fatal, and it asks for more lines of a unit exactly if that is unfinished. -/
theorem lines_leave_shell_ready {shell : Shell} (hs : shell.session.Reachable) (terminal : Text.Style)
    (line : String) :
    let unit := shell.extended line
    let reply := shell.runLine terminal line
    Answered unit (shell.behind line) terminal reply ∧
    (∀ b, isUnfinished unit = false → parseUnit unit = .error (.breakdown b) →
      reply.answer = .fails (.breakdown b)) ∧
    reply.shell.session.Reachable ∧ reply.shell.session.reporter.fatal = false ∧
    reply.shell.session.state.output = #[] ∧ reply.shell.lineNumber = shell.lineNumber + 1 ∧
    (reply.shell.buffer, reply.shell.prompt) =
      if isUnfinished unit then (unit, .secondary) else ("", .primary) := by
  intro unit reply
  have hends (b : Breakdown) (h : isUnfinished unit = false) (hp : parseUnit unit = .error (.breakdown b)) :
      reply.answer = .fails (.breakdown b) := answer_of_unread hs line h hp terminal
  have hentered := entered_enter hs line
  cases henter : enter line shell with
  | ok _ u =>
      rw [henter] at hentered
      have hreply : reply = _ := runLine_of_ok henter terminal
      have hbehind : shell.behind line = u.session := by simp only [behind, henter]
      have hu : u.session.Reachable ∧ u.lineNumber = shell.lineNumber + 1 ∧
          (u.buffer, u.prompt) = if isUnfinished unit then (unit, .secondary) else ("", .primary) := by
        cases hentered with
        | kept h => exact ⟨hs, rfl, (if_pos h).symm⟩
        | used h hu => exact ⟨hu, rfl, (if_neg (Bool.eq_false_iff.mp h)).symm⟩
      refine ⟨?_, hends, ?_⟩
      · rw [hreply, hbehind]
        exact .quietly rfl rfl
      · rw [hreply]
        exact ⟨reachable_cleared hu.1, hu.1.sound.calm, rfl, hu.2⟩
  | error failure u =>
      rw [henter] at hentered
      cases hentered with
      | @failed t _ h ht hf =>
          have hreply : reply = _ := runLine_of_error henter ht.sound.calm terminal
          have hbehind : shell.behind line = t := by simp only [behind, henter]
          refine ⟨?_, hends, ?_⟩
          · rw [hreply, hbehind]
            refine .reporting hf.defect?_told rfl ?_
            cases failure with
            | breakdown b => exact .inr ⟨b, rfl, hf.hostLimit, rfl⟩
            | lex | parse | eval | general | endless => exact .inl rfl
          · rw [hreply]
            exact ⟨reachable_cleared_report ht terminal, ht.sound.calm, rfl, rfl,
              (if_neg (Bool.eq_false_iff.mp h)).symm⟩

/-- A division by zero is typed on two lines while a unit waits in the queue. -/
theorem lines_leave_shell_ready_division :
    let s := after (enqueue "LET x = 1;" 0 (Session.start {} promptPath true))
    let shell : Shell := { session := s, buffer := "x /\n", lineNumber := 1, startNumber := 1 }
    let reply := shell.runLine .plain "0;"
    s.Reachable ∧ Answered "x /\n0;\n" (shell.behind "0;") .plain reply ∧
      reply.shell.session.Reachable ∧ (reply.shell.buffer, reply.shell.prompt) = ("", .primary) := by
  intro s shell reply
  have hs : s.Reachable := .enqueue "LET x = 1;" 0 (.start {} promptPath)
  have hfinished : isUnfinished "x /\n0;\n" = false := by decide
  obtain ⟨hanswer, -, hreach, -, -, -, hready⟩ := @lines_leave_shell_ready shell hs .plain "0;"
  exact ⟨hs, hanswer, hreach, hready.trans (if_neg (Bool.eq_false_iff.mp hfinished))⟩

/-- No decimal can hold the number on the line, and the shell does not go on. -/
theorem large_exponent_ends_shell :
    let shell := Shell.start {}
    shell.session.Reachable ∧
      (shell.runLine .plain "1e1000000000000000000;").answer =
        .fails (.breakdown (.unusable .unrepresentable)) := by
  intro shell
  have hs : shell.session.Reachable := .start {} promptPath
  have hfinished : isUnfinished "1e1000000000000000000;\n" = false := by decide
  have hparse : parseUnit "1e1000000000000000000;\n" =
      .error (.breakdown (.unusable .unrepresentable)) := rfl
  exact ⟨hs, answer_of_unread hs "1e1000000000000000000;" hfinished hparse .plain⟩

end Shell

end ProtoScript
