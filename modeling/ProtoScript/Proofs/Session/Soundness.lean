import ProtoScript.Proofs.Eval.Runs
import ProtoScript.Proofs.Session.Failures
import ProtoScript.Proofs.Session.Queue

/-!
# Sessions at a prompt

Calls lead from a new session at a prompt to others, whether they succeed or fail. In each of these no
report is fatal, all programs in the queue were read from sources, and the state is one that such programs
can leave behind. Whatever a run of the queue fails with is therefore an error of the language, an endless
recursion, an integer that is too long to be written, or a limit of decimals.
-/

namespace ProtoScript

/-- The failure of a program that was read from a source. -/
def Failure.Ordinary (failure : Failure) : Prop :=
  ∃ fault : Fault, fault.Ordinary ∧ failure = .ofFault fault

namespace Failure.Ordinary
variable {failure : Failure}

theorem defect?_told (h : failure.Ordinary) : failure.told.message.defect? = none := by
  obtain ⟨fault, hfault, rfl⟩ := h
  cases fault with
  | error e => exact (Cause.Ordinary.message hfault).1
  | endless => decide
  | breakdown b => exact Report.defect?_unknown b

theorem of_breakdown {b : Breakdown} (h : (Failure.breakdown b).Ordinary) :
    b = .digitLimit ∨ ∃ limit, b = .limit limit := by
  obtain ⟨fault, hfault, hb⟩ := h
  cases fault with
  | error e => cases hb
  | endless => cases hb
  | breakdown reason =>
      cases hb
      exact hfault

end Failure.Ordinary

namespace Session
variable {α β : Type} {s : Session} {fails : Failure → Prop}

/-- No report is fatal, and everything in the session comes from programs that were read from sources. -/
structure Sound (s : Session) : Prop where
  calm : s.reporter.fatal = false
  queue : ∀ entry ∈ s.queue.entries, entry.2.program.Written
  results : ∀ value ∈ s.results, value.Written
  state : ∃ p : Point, p.Good True ∧ p.toState = s.state

/-- A step leaves a session behind as `keeps` says, and fails only as `fails` says. -/
inductive Safe (keeps : Session → Prop) (fails : Failure → Prop) : EStateM.Result Failure Session α → Prop
  | ok {a : α} {t : Session} (h : keeps t) : Safe keeps fails (.ok a t)
  | error {failure : Failure} {t : Session} (h : keeps t) (hf : fails failure) :
      Safe keeps fails (.error failure t)

namespace Safe
variable {keeps : Session → Prop}

theorem after {r : EStateM.Result Failure Session α} (h : Safe keeps fails r) : keeps (after r) := by
  cases h with
  | ok h => exact h
  | error h _ => exact h

theorem imp {kept : Session → Prop} {failed : Failure → Prop} {r : EStateM.Result Failure Session α}
    (h : Safe kept failed r) (hkeeps : keeps (Session.after r))
    (hfails : ∀ failure, failed failure → fails failure) : Safe keeps fails r := by
  cases h with
  | ok _ => exact .ok hkeeps
  | error _ hf => exact .error hkeeps (hfails _ hf)

theorem bind {m : SessionStep α} {k : α → SessionStep β} (hm : Safe keeps fails (m s))
    (hk : ∀ a t, m s = .ok a t → keeps t → Safe keeps fails (k a t)) :
    Safe keeps fails ((m >>= k) s) := by
  rw [Eval.bind_apply]
  cases hr : m s with
  | ok a t =>
      rw [hr] at hm
      exact hk a t hr hm.after
  | error failure t =>
      rw [hr] at hm
      cases hm with
      | error h hf => exact .error h hf

end Safe

namespace Sound

theorem start (reporter : Reporter) (path : String) : (Session.start reporter path true).Sound where
  calm := rfl
  queue := by rintro entry ⟨⟩
  results := by rintro value ⟨⟩
  state := ⟨.initial, Eval.good_initial, rfl⟩

variable (h : s.Sound)
include h

/-- What has been written does not matter. -/
theorem output (output : Array Event) : Sound { s with state := { s.state with output } } where
  calm := h.calm
  queue := h.queue
  results := h.results
  state := by
    obtain ⟨p, hp, hstate⟩ := h.state
    have hsound : Point.Sound { p with output } :=
      ⟨hp.1.older, hp.1.parentless, hp.1.object, hp.1.binding, hp.1.scope⟩
    exact ⟨{ p with output }, ⟨hsound, hp.2⟩, by rw [← hstate]⟩

theorem reporter {reporter : Reporter} (hcalm : reporter.fatal = false) :
    Sound { s with reporter := reporter } :=
  ⟨hcalm, h.queue, h.results, h.state⟩

theorem guard (terminal : Text.Style) (signal : Signal) :
    Sound { s with reporter := (s.reporter.guard terminal signal).reporter } := by
  refine h.reporter ?_
  have hsettle (report : Report) (otherwise : Reporter.Ending) :
      (s.reporter.settle terminal report otherwise).reporter.fatal = false := by
    unfold Reporter.settle
    split <;> exact h.calm
  cases signal with
  | exit => exact h.calm
  | report | endless | interrupt | breakdown => exact hsettle _ _

theorem enqueue (text : String) (number : Int) :
    Safe Sound (parseUnit text = .error ·) (Session.enqueue text number s) := by
  cases hparse : parseUnit text with
  | ok program =>
      have hyields : Grammar.Yields .source text program := parseUnit_iff.mp hparse
      rw [enqueue_apply hparse]
      refine .ok ⟨h.calm, ?_, h.results, h.state⟩
      intro entry he
      rcases Table.mem_put he with rfl | he
      · exact ⟨.source, hyields.printable⟩
      · exact h.queue entry he
  | error failure =>
      rw [enqueue_of_error hparse]
      exact .error (h.reporter h.calm) rfl

omit h in
theorem mem_queueAfter {number : Int} {entry : Int × QueuedUnit}
    (he : entry ∈ (s.queueAfter number).entries) : entry ∈ s.queue.entries := by
  unfold queueAfter at he
  split at he
  · exact List.mem_of_mem_filter he
  · exact he

theorem runUnits {units : List (Int × QueuedUnit)}
    (hunits : ∀ entry ∈ units, entry.2.program.Written) :
    Safe Sound Failure.Ordinary (Session.runUnits units s) := by
  induction units generalizing s with
  | nil => exact .ok h
  | cons entry rest ih =>
      obtain ⟨number, text, program⟩ := entry
      obtain ⟨hprogram, hrest⟩ := List.forall_mem_cons.mp hunits
      obtain ⟨p, hp, hstate⟩ := h.state
      have hqueue : ∀ entry ∈ (s.queueAfter number).entries, entry.2.program.Written :=
        fun entry he => h.queue entry (mem_queueAfter he)
      have hends := Eval.ends_run s.tracing Eval.maxDepth hp program fun _ => hprogram
      rw [runUnits_cons, ← hstate]
      change Eval.Ends True _ p (Eval.run (.standard s.tracing) program p.toState) at hends
      generalize Eval.run (.standard s.tracing) program p.toState = r at hends
      cases hends with
      | @ok value q _ hq _ hv =>
          refine ih ⟨h.calm, hqueue, ?_, q, hq, rfl⟩ hrest
          exact List.forall_mem_cons.mpr ⟨hv.2 trivial, h.results⟩
      | @error fault q _ hq _ hf =>
          exact .error ⟨h.calm, hqueue, h.results, q, hq, rfl⟩ ⟨fault, hf trivial, rfl⟩

theorem run : Safe Sound Failure.Ordinary (Session.run s) := by
  have hunits := h.runUnits h.queue
  rw [run_apply]
  generalize Session.runUnits s.queue.entries s = r at hunits
  cases hunits with
  | error ht hf => exact .error ht hf
  | @ok _ t ht =>
      refine .ok ?_
      unfold finished
      split
      · exact ht
      · exact ⟨ht.calm, (by rintro entry ⟨⟩), ht.results, ht.state⟩

theorem takeResult : (Session.after (Session.takeResult s)).Sound := by
  obtain ⟨reporter, path, interactive, state, queue, results⟩ := s
  cases results with
  | nil => exact h
  | cons value earlier => exact ⟨h.calm, h.queue, (List.forall_mem_cons.mp h.results).2, h.state⟩

theorem load (readFile : String → Option String) : (after (Session.load readFile s)).Sound := by
  unfold Session.load
  change (after ((if s.path ≠ promptPath then _ else _ : SessionStep Unit) s)).Sound
  split
  · cases readFile s.path with
    | some text =>
        simp only
        split
        · exact h
        · exact (h.enqueue _ _).after
    | none =>
        simp only
        split <;> exact h
  · split <;> exact h

end Sound

/-- The sessions that calls lead to from a new one at a prompt, whether the calls succeed or fail. What was
written may be taken away or added to, and guards may report whatever they like. -/
inductive Reachable : Session → Prop
  | start (reporter : Reporter) (path : String) : Reachable (.start reporter path true)
  | enqueue {s : Session} (text : String) (number : Int) (h : Reachable s) :
      Reachable (after (enqueue text number s))
  | run {s : Session} (h : Reachable s) : Reachable (after (run s))
  | takeResult {s : Session} (h : Reachable s) : Reachable (after (takeResult s))
  | load {s : Session} (readFile : String → Option String) (h : Reachable s) :
      Reachable (after (load readFile s))
  | output {s : Session} (output : Array Event) (h : Reachable s) :
      Reachable { s with state := { s.state with output } }
  | guard {s : Session} (terminal : Text.Style) (signal : Signal) (h : Reachable s) :
      Reachable { s with reporter := (s.reporter.guard terminal signal).reporter }

theorem Reachable.sound (h : s.Reachable) : s.Sound := by
  induction h with
  | start reporter path => exact .start reporter path
  | enqueue text number _ ih => exact (ih.enqueue text number).after
  | run _ ih => exact ih.run.after
  | takeResult _ ih => exact ih.takeResult
  | load readFile _ ih => exact ih.load readFile
  | output output _ ih => exact ih.output output
  | guard terminal signal _ ih => exact ih.guard terminal signal

end Session

end ProtoScript
