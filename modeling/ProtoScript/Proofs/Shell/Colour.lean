import ProtoScript.CommandLine.Basic
import ProtoScript.Proofs.Shell.Letters

/-!
# Colours in a shell

Colours are decoration, whatever style the terminal has that only adds marks. A shell does the same with
colours on and off: no step of its session looks at them, and they only put marks into what is written. If no
escape character is typed, none is written but in marks, so the output with colours is the bare output again
once the marks are taken away.
-/

namespace ProtoScript
open ProtoScript.Text ProtoScript.Text.Alphabet

section Commuting
variable {ε σ α β : Type}

/-- A result with its state changed. -/
def mapState (change : σ → σ) : EStateM.Result ε σ α → EStateM.Result ε σ α
  | .ok a s => .ok a (change s)
  | .error e s => .error e (change s)

/-- The step does the same whether the state is changed before it or behind it. -/
def Commutes (change : σ → σ) (step : EStateM ε σ α) : Prop :=
  ∀ s, step (change s) = mapState change (step s)

theorem Commutes.bind {change : σ → σ} {m : EStateM ε σ α} {k : α → EStateM ε σ β}
    (hm : Commutes change m) (hk : ∀ a, Commutes change (k a)) : Commutes change (m >>= k) := by
  intro s
  rw [Eval.bind_apply, Eval.bind_apply, hm s]
  cases m s with
  | ok a t => exact hk a t
  | error e t => rfl

end Commuting

namespace Session

/-- The session with colours on or off. -/
def recolored (color : Bool) (s : Session) : Session :=
  { s with reporter := s.reporter.recolored color }

variable (color : Bool)

theorem commutes_enqueue (text : String) (number : Int) :
    Commutes (recolored color) (enqueue text number) := by
  intro s
  cases hparse : parseUnit text with
  | ok program =>
      rw [enqueue_apply hparse, enqueue_apply hparse]
      rfl
  | error failure =>
      rw [enqueue_of_error hparse, enqueue_of_error hparse]
      rfl

theorem commutes_runUnits (units : List (Int × QueuedUnit)) :
    Commutes (recolored color) (runUnits units) := by
  induction units with
  | nil => exact fun _ => rfl
  | cons unit rest ih =>
      intro s
      obtain ⟨number, text, program⟩ := unit
      -- Whether calls are traced is up to the reporter, but not to its colours.
      have hrun : Eval.run (.standard (recolored color s).tracing) program (recolored color s).state =
          Eval.run (.standard s.tracing) program s.state := rfl
      rw [runUnits_cons, runUnits_cons, hrun]
      cases Eval.run (.standard s.tracing) program s.state with
      | ok value state => exact ih (s.passed number { text, program } value state)
      | error fault state => rfl

theorem commutes_run : Commutes (recolored color) run := by
  intro s
  have hunits : runUnits (recolored color s).queue.entries (recolored color s) =
      mapState (recolored color) (runUnits s.queue.entries s) := commutes_runUnits color _ s
  rw [run_apply, run_apply, hunits]
  cases runUnits s.queue.entries s with
  | ok _ t =>
      obtain ⟨reporter, path, interactive, state, queue, results⟩ := t
      cases interactive <;> rfl
  | error failure t => rfl

theorem painted_flush (s : Session) {terminal : Style} (ht : terminal.Decorative) :
    Painted (s.flush .plain).1 ((recolored color s).flush terminal).1 :=
  .join fun event _ => s.reporter.painted_eventText color ht event

end Session

namespace Shell
open Session
variable (color : Bool)

/-- The shell with colours on or off. -/
def recolored (color : Bool) (shell : Shell) : Shell :=
  { shell with session := shell.session.recolored color }

theorem commutes_showResult : Commutes (Session.recolored color) showResult := by
  intro s
  cases hresults : s.results with
  | nil =>
      rw [showResult_of_nil hresults, showResult_of_nil (s := s.recolored color) hresults]
      rfl
  | cons value earlier =>
      rw [showResult_of_cons hresults, showResult_of_cons (s := s.recolored color) hresults]
      unfold showValue
      cases value.equals .nil with
      | error fault => rfl
      | ok same =>
          cases same with
          | true => rfl
          | false =>
              have hheap : (s.recolored color).state.heap = s.state.heap := rfl
              simp only [Eval.bind_apply, get_apply, hheap]
              cases display s.state.heap value <;> rfl

theorem commutes_useUnit (text : String) (number : Int) :
    Commutes (Session.recolored color) (useUnit text number) := by
  refine .bind (commutes_enqueue color text number) fun _ => ?_
  exact .bind (commutes_run color) fun _ => commutes_showResult color

theorem commutes_inSession {α : Type} {step : SessionStep α} (h : Commutes (Session.recolored color) step) :
    Commutes (recolored color) (inSession step) := by
  intro shell
  have hstep := h shell.session
  cases hresult : step shell.session with
  | ok a t =>
      rw [hresult] at hstep
      have hchanged : inSession step (recolored color shell) = _ := inSession_of_ok hstep
      rw [inSession_of_ok hresult, hchanged]
      rfl
  | error failure t =>
      rw [hresult] at hstep
      have hchanged : inSession step (recolored color shell) = _ := inSession_of_error hstep
      rw [inSession_of_error hresult, hchanged]
      rfl

theorem commutes_enter (line : String) : Commutes (recolored color) (enter line) := by
  intro shell
  have hextended : (recolored color shell).extended line = shell.extended line := rfl
  rw [enter_apply, enter_apply, hextended]
  split
  · rfl
  · exact commutes_inSession color (commutes_useUnit color _ _) shell.completed

/-- The second reply is the first one with marks in its output and under other colours. -/
structure Reply.Recolors (color : Bool) (bare reply : Reply) : Prop where
  answer : reply.answer = bare.answer
  output : Painted bare.output reply.output
  shell : reply.shell = recolored color bare.shell

/-- The second dialogue is the first one with marks in its output and under other colours. -/
structure Dialogue.Recolors (color : Bool) (bare dialogue : Dialogue) : Prop where
  answer : dialogue.answer = bare.answer
  output : Painted bare.output dialogue.output
  shell : dialogue.shell = recolored color bare.shell

/-- The answers to lines, given whether or not the shell is to be left. -/
def replies (terminal : Style) (shell : Shell) : List String → List Reply
  | [] => []
  | line :: rest => shell.takeLine terminal line :: replies terminal (shell.takeLine terminal line).shell rest

theorem Reply.Recolors.last {color : Bool} {bare reply : Reply} (h : Recolors color bare reply)
    (prompt : String) :
    Dialogue.Recolors color ⟨bare.answer, prompt ++ bare.output, bare.shell⟩
      ⟨reply.answer, prompt ++ reply.output, reply.shell⟩ :=
  ⟨h.answer, (Painted.refl prompt).append h.output, h.shell⟩

section Marks
variable (shell : Shell) {terminal : Style} (ht : terminal.Decorative)
include ht

theorem recolors_runLine (line : String) :
    Reply.Recolors color (shell.runLine .plain line) ((recolored color shell).runLine terminal line) := by
  unfold runLine
  rw [commutes_enter color line shell]
  cases enter line shell with
  | ok _ t => exact ⟨rfl, painted_flush color t.session ht, rfl⟩
  | error failure t =>
      have hguard : Reporter.Guarded.Recolors color
          ((t.flush .plain).2.session.reporter.guard .plain failure.signal)
          (((recolored color t).flush terminal).2.session.reporter.guard terminal failure.signal) :=
        t.session.reporter.recolors_guard color ht failure.signal
      have hflush := painted_flush color t.session ht
      refine ⟨?_, hflush.append hguard.output, ?_⟩
      · simp only [mapState, hguard.ending]
      · simp only [mapState, hguard.reporter]
        rfl

/-- Colours only put marks into the answer to a line. -/
theorem recolors_takeLine (line : String) :
    Reply.Recolors color (shell.takeLine .plain line) ((recolored color shell).takeLine terminal line) := by
  unfold takeLine
  cases Command.ofLine line with
  | program text => exact recolors_runLine color shell ht text
  | nothing | help | exit | endOfInput => exact ⟨rfl, .refl _, rfl⟩

theorem recolors_converse (lines : List String) :
    Dialogue.Recolors color (shell.converse .plain lines)
      ((recolored color shell).converse terminal lines) := by
  induction lines generalizing shell with
  | nil => exact (recolors_takeLine color shell ht endLine).last _
  | cons line rest ih =>
      have hreply := recolors_takeLine color shell ht line
      by_cases h : (shell.takeLine .plain line).answer = .continues
      · have hlater := ih (shell.takeLine .plain line).shell
        rw [converse_of_continues _ _ h, converse_of_continues _ _ (hreply.answer.trans h), hreply.shell]
        exact ⟨hlater.answer, ((Painted.refl _).append hreply.output).append hlater.output, hlater.shell⟩
      · rw [converse_of_ends _ _ h, converse_of_ends _ _ fun hc => h (hreply.answer.symm.trans hc)]
        exact hreply.last _

end Marks

theorem recolors_replies {A : Alphabet} {shell : Shell} (h : shell.In A) {lines : List String}
    (hlines : ∀ line ∈ lines, A.Spells line) {terminal : Style} (ht : terminal.Decorative) :
    List.Forall₂ (fun bare reply => bare.In A ∧ Reply.Recolors color bare reply)
      (shell.replies .plain lines) ((recolored color shell).replies terminal lines) := by
  induction lines generalizing shell with
  | nil => exact .nil
  | cons line rest ih =>
      obtain ⟨hline, hrest⟩ := List.forall_mem_cons.mp hlines
      have hbare := h.takeLine hline
      have hreply := recolors_takeLine color shell ht line
      rw [replies, replies, hreply.shell]
      exact .cons ⟨hbare, hreply⟩ (ih hbare.shell hrest)

end Shell

namespace CommandLine
open Shell
variable (color : Bool) (reporter : Reporter) {terminal : Style} (ht : terminal.Decorative)

/-- The second outcome is the first one with marks in its output. -/
structure Outcome.Recolors (bare outcome : Outcome) : Prop where
  ending : outcome.ending = bare.ending
  output : Painted bare.output outcome.output

include ht in
theorem recolors_finish {written written' : String} (hw : Painted written written') (failure : Failure) :
    Outcome.Recolors (finish .plain reporter written failure)
      (finish terminal (reporter.recolored color) written' failure) := by
  have hguard := reporter.recolors_guard color ht failure.signal
  unfold finish
  refine ⟨?_, hw.append hguard.output⟩
  simp only [hguard.ending]

include ht in
theorem recolors_runShell (lines : List String) :
    Outcome.Recolors (runShell .plain reporter lines)
      (runShell terminal (reporter.recolored color) lines) := by
  have hdialogue : Dialogue.Recolors color ((Shell.start reporter).converse .plain lines)
      ((Shell.start (reporter.recolored color)).converse terminal lines) :=
    recolors_converse color (Shell.start reporter) ht lines
  have hwritten := (Painted.refl (Shell.intro ++ "\n")).append hdialogue.output
  unfold runShell
  simp only [hdialogue.answer, hdialogue.shell]
  split
  · exact ⟨rfl, hwritten⟩
  · exact ⟨rfl, hwritten⟩
  · exact ⟨rfl, hwritten⟩
  · exact recolors_finish color _ ht hwritten _

theorem spells_runShell {A : Alphabet} {reporter : Reporter} (hr : reporter.In A) {lines : List String}
    (hlines : ∀ line ∈ lines, A.Spells line) : A.Spells (runShell .plain reporter lines).output := by
  have hdialogue := (Shell.In.start hr).converse hlines
  have hwritten : A.Spells (Shell.intro ++ "\n" ++ ((Shell.start reporter).converse .plain lines).output) :=
    ((spells_word (by decide)).append (spells_word (by decide))).append hdialogue.output
  unfold runShell
  simp only
  split
  · exact hwritten
  · exact hwritten
  · exact hwritten
  · next failure hanswer =>
      exact hwritten.append (hdialogue.shell.session.reporter.guard (hdialogue.failure failure hanswer)).1

end CommandLine

namespace Shell

/-- The terminal only puts marks into a text, and typed lines have no escape characters. Then colours are
decoration. After every line the shell is what it is on a plain terminal with colours off, but for the colours
themselves, and it goes on or ends in the same way; what is written differs by marks only. So does the output
of the whole command. -/
theorem colour_is_decoration {terminal : Style} (ht : terminal.Decorative) (fatal verbose color : Bool)
    {lines : List String} (hlines : ∀ line ∈ lines, escapeChar ∉ line.toList) :
    let off : Reporter := { fatal, verbose, color := false }
    let reporter : Reporter := { fatal, verbose, color }
    List.Forall₂ (fun bare reply => reply.answer = bare.answer ∧ unmarked reply.output = bare.output ∧
        reply.shell = recolored color bare.shell)
      ((Shell.start off).replies .plain lines) ((Shell.start reporter).replies terminal lines) ∧
    (CommandLine.runShell terminal reporter lines).ending =
      (CommandLine.runShell .plain off lines).ending ∧
    unmarked (CommandLine.runShell terminal reporter lines).output =
      (CommandLine.runShell .plain off lines).output := by
  intro off reporter
  have hspelled : ∀ line ∈ lines, unescaped.Spells line := by
    intro line hl c hc he
    exact hlines line hl (he ▸ hc)
  have hoff : off.In unescaped := by rintro entry ⟨⟩
  have hreplies := recolors_replies color (Shell.In.start hoff) hspelled ht
  have houtcome := CommandLine.recolors_runShell color off ht lines
  -- The bare texts have no escape characters, so nothing of them is taken for a mark.
  refine ⟨hreplies.imp ?_, houtcome.ending, ?_⟩
  · rintro bare reply ⟨hin, hreply⟩
    exact ⟨hreply.answer, hreply.output.unmarked_eq hin.output, hreply.shell⟩
  · exact houtcome.output.unmarked_eq (CommandLine.spells_runShell hoff hspelled)

/-- A traced call and three failures: of the tokens, of the parse and of the run. The terminal has escape
sequences for marks. -/
theorem colour_is_decoration_failures :
    let lines := ["print(\"a\");", "\"open;", "LET = 2;", "1 / 0;"]
    let off : Reporter := { verbose := true, color := false }
    let reporter : Reporter := { verbose := true }
    Style.ansi.Decorative ∧ (∀ line ∈ lines, escapeChar ∉ line.toList) ∧
    List.Forall₂ (fun bare reply => reply.answer = bare.answer ∧ unmarked reply.output = bare.output ∧
        reply.shell = recolored true bare.shell)
      ((Shell.start off).replies .plain lines) ((Shell.start reporter).replies .ansi lines) ∧
    unmarked (CommandLine.runShell .ansi reporter lines).output =
      (CommandLine.runShell .plain off lines).output := by
  intro lines off reporter
  have hlines : ∀ line ∈ lines, escapeChar ∉ line.toList := by decide
  obtain ⟨hreplies, -, houtput⟩ := colour_is_decoration decorative_ansi true true true hlines
  exact ⟨decorative_ansi, hlines, hreplies, houtput⟩

end Shell

end ProtoScript
