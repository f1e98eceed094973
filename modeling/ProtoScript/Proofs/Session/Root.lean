import ProtoScript.Proofs.Eval.Locality
import ProtoScript.Proofs.Eval.Runs
import ProtoScript.Proofs.Session.Queue

/-!
# Units at the root

A step of an evaluation ends in the frame it started in, with a value or with a fault. So all units of a
session start in the root frame, whatever became of those before them: their declarations and definitions
are bound there, and a name means what the earlier units have bound there.
-/

namespace ProtoScript

/-- From a frame without a parent, only its own bindings are seen. -/
theorem Heap.resolve_of_parentless {h : Heap} {f : FrameId} (hf : f < h.size)
    (hp : h.parent? f = none) (name : String) : h.resolve f name = h.own? f name := by
  obtain ⟨room, hroom⟩ := Nat.exists_eq_add_of_lt (Nat.zero_lt_of_lt hf)
  rw [Heap.resolve, Heap.chain, hroom, Nat.add_comm 0, Heap.chainWithin, hp]
  simp

namespace Eval
variable {α : Type} {s : State}

/-- A step that depends on what its frame reaches alone ends in that frame. -/
theorem scope_of_agrees {step : Eval α} {post : α → Prop}
    (h : (Comparison.ofRoots [s.scope] s s).Agrees True post step) :
    (finalState (step s)).scope = s.scope := by
  have halike : (Comparison.ofRoots [s.scope] s s).Alike s s :=
    Comparison.alike_ofRoots ⟨rfl, rfl, fun _ => rfl⟩
  have hregion : (Comparison.ofRoots [s.scope] s s).region s.scope :=
    Comparison.region_of_mem List.mem_cons_self
  exact (h s s halike fun _ => ⟨rfl, hregion⟩).scope_eq

/-- Every evaluation ends in the frame it started in. -/
theorem scope_run (tracing : Tracing) (depth : Nat) (node : Node) (s : State) :
    (finalState (run (.upTo tracing depth) node s)).scope = s.scope :=
  scope_of_agrees (Comparison.agrees_run _ tracing depth node)

theorem scope_evalOption (tracing : Tracing) (depth : Nat) (e : Option Expr) (s : State) :
    (finalState (evalOption (.upTo tracing depth) e s)).scope = s.scope := by
  let regime := (Comparison.ofRoots [s.scope] s s).regime
  have hstep := Regime.obeys_evalOption (w := ()) (regime.serves_upTo tracing depth) e fun _ _ => trivial
  exact scope_of_agrees hstep

/-- The state is that of a program outside all blocks: names are looked up in the root frame and nowhere
else, and what is declared or defined is bound there. -/
structure AtRoot (cx : Context) (s : State) : Prop where
  scope : s.scope = Heap.rootFrame
  sees (name : String) : s.heap.resolve s.scope name = s.heap.own? Heap.rootFrame name
  declares (d : Declaration) : execStmt cx (.declare d) s =
    blame (.stmt (.declare d)) (do
      let value ← evalOption cx d.value
      defineIn Heap.rootFrame d.name value
      return .normal value) s
  defines (d : Definition) : execStmt cx (.define d) s =
    blame (.stmt (.define d)) (do
      let function ← createFunction d.name (.closure d Heap.rootFrame)
      defineIn Heap.rootFrame d.name (.function function)
      return .normal (.function function)) s

theorem atRoot_of_good {p : Point} {written : Prop} (hp : p.Good written)
    (hroot : p.scope = Heap.rootFrame) (tracing : Tracing) (depth : Nat) :
    AtRoot (.upTo tracing depth) p.toState where
  scope := hroot
  sees name := by
    have hsize := hp.1.scope
    rw [hroot] at hsize ⊢
    refine Heap.resolve_of_parentless hsize ?_ name
    -- A parent would be older than the oldest frame.
    cases hparent : p.heap.parent? Heap.rootFrame with
    | none => rfl
    | some parent => exact absurd (hp.1.older hparent) (Nat.not_lt_zero parent)
  declares d := by
    obtain ⟨name, e⟩ := d
    have hscope := scope_evalOption tracing depth e p.toState
    rw [execStmt.eq_def]
    unfold blame
    simp only [declare, bind_assoc, pure_bind]
    rw [bind_apply, bind_apply]
    cases hvalue : evalOption (.upTo tracing depth) e p.toState with
    | error fault t => rfl
    | ok value t =>
        rw [hvalue] at hscope
        have hdefine : define name value t = defineIn Heap.rootFrame name value t := by
          rw [← hroot, ← hscope]
          rfl
        simp only [bind_apply, hdefine]
  defines d := by
    have hdefine : (do return .normal (← defineFunction d) : Eval Completion) p.toState =
        (do
          let function ← createFunction d.name (.closure d p.scope)
          defineIn p.scope d.name (.function function)
          return .normal (.function function) : Eval Completion) p.toState := by
      simp only [defineFunction, bind_assoc, pure_bind]
      rfl
    rw [execStmt.eq_def]
    unfold blame
    simp only [hdefine, hroot]

end Eval

namespace Session
open Eval OnRecord
variable {tracing : Tracing}

/-- The evaluation is one of the program of its unit. -/
def Evaluation.Faithful (tracing : Tracing) (e : Evaluation) : Prop :=
  let r := Eval.run (.standard tracing) e.unit.program e.before
  e.after = finalState r ∧ e.result = (outcome r).mapError .ofFault

/-- Evaluations lead from one state to another, and each starts in the state that the one before it has
left behind. -/
inductive HandsOn (tracing : Tracing) (s : State) : List Evaluation → State → Prop
  | start : HandsOn tracing s [] s
  | next {record : List Evaluation} {e : Evaluation} (h : HandsOn tracing s record e.before)
      (he : e.Faithful tracing) : HandsOn tracing s (record ++ [e]) e.after

/-- The evaluations on record lead from the first state to that of the session. -/
def Unbroken (tracing : Tracing) (s : Session × List Evaluation) : Prop :=
  s.1.tracing = tracing ∧ HandsOn tracing .initial s.2 s.1.state

theorem unbroken_runUnitsNoted {s : Session} {record : List Evaluation}
    (h : Unbroken tracing (s, record)) (units : List (Int × QueuedUnit)) :
    Unbroken tracing (final (runUnitsNoted units (s, record))) := by
  induction units generalizing s record with
  | nil => exact h
  | cons entry rest ih =>
      obtain ⟨number, unit⟩ := entry
      obtain ⟨rfl, hstates⟩ := h
      rw [runUnitsNoted_cons]
      cases hrun : Eval.run (.standard s.tracing) unit.program s.state with
      | ok value state =>
          let e : Evaluation :=
            { number, unit, before := s.state, after := state, result := .ok value }
          have he : e.Faithful s.tracing := by
            simp only [Evaluation.Faithful, e, hrun]
            exact ⟨rfl, rfl⟩
          exact ih ⟨rfl, hstates.next (e := e) he⟩
      | error fault state =>
          let e : Evaluation :=
            { number, unit, before := s.state, after := state, result := .error (.ofFault fault) }
          have he : e.Faithful s.tracing := by
            simp only [Evaluation.Faithful, e, hrun]
            exact ⟨rfl, rfl⟩
          exact ⟨rfl, hstates.next (e := e) he⟩

theorem unbroken_runNoted {s : Session} {record : List Evaluation}
    (h : Unbroken tracing (s, record)) : Unbroken tracing (final (runNoted (s, record))) := by
  have hunits := unbroken_runUnitsNoted h s.queue.entries
  rw [runNoted_apply]
  generalize runUnitsNoted s.queue.entries (s, record) = r at hunits ⊢
  rcases r with ⟨_, t, record'⟩ | ⟨_, t, record'⟩
  · have hfinished : t.finished.tracing = t.tracing ∧ t.finished.state = t.state := by
      unfold finished
      split <;> exact ⟨rfl, rfl⟩
    exact ⟨hfinished.1.trans hunits.1, hfinished.2 ▸ hunits.2⟩
  · exact hunits

/-- Adding a unit leaves the state as it is. -/
theorem after_enqueue (text : String) (number : Int) (s : Session) :
    (after (enqueue text number s)).state = s.state ∧
      (after (enqueue text number s)).tracing = s.tracing := by
  cases hparse : parseUnit text with
  | ok program =>
      rw [enqueue_apply hparse]
      exact ⟨rfl, rfl⟩
  | error failure =>
      rw [enqueue_of_error hparse]
      exact ⟨rfl, rfl⟩

theorem unbroken_performNoted {s : Session} {record : List Evaluation}
    (h : Unbroken tracing (s, record)) (request : Request) :
    Unbroken tracing (final (request.performNoted (s, record))) := by
  cases request with
  | add text number =>
      obtain ⟨hstate, htracing⟩ := after_enqueue text number s
      rw [Request.performNoted, final_quiet]
      exact ⟨htracing.trans h.1, hstate ▸ h.2⟩
  | run => exact unbroken_runNoted h

theorem unbroken_performAllNoted {s : Session × List Evaluation} (h : Unbroken tracing s)
    (requests : List Request) : Unbroken tracing (performAllNoted requests s) := by
  induction requests generalizing s with
  | nil => exact h
  | cons request rest ih => exact ih (unbroken_performNoted h request)

namespace HandsOn
variable {s t : State} {record : List Evaluation}

/-- Every evaluation on record starts and ends behind evaluations on record. -/
theorem around (h : HandsOn tracing s record t) {e : Evaluation} (he : e ∈ record) :
    ∃ earlier, HandsOn tracing s earlier e.before ∧ HandsOn tracing s (earlier ++ [e]) e.after := by
  induction h with
  | start => cases he
  | @next record last h hlast ih =>
      rcases List.mem_append.mp he with he | he
      · exact ih he
      · obtain rfl := List.mem_singleton.mp he
        exact ⟨record, h, h.next hlast⟩

theorem exists_point (h : HandsOn tracing .initial record t) :
    ∃ p : Point, p.Good False ∧ p.scope = Heap.rootFrame ∧ p.toState = t := by
  induction h with
  | start => exact ⟨.initial, good_initial, rfl, rfl⟩
  | @next record e h he ih =>
      obtain ⟨p, hp, hroot, hstate⟩ := ih
      obtain ⟨q, -, hq, hscope, hfinal, -⟩ :=
        (ends_run tracing maxDepth hp e.unit.program False.elim).final
      refine ⟨q, hq, hscope.trans hroot, ?_⟩
      rw [hfinal, hstate]
      exact he.1.symm

/-- Evaluations leave a state at the root behind, and at the root it stays between the statements of the
next program. -/
theorem atRoot (h : HandsOn tracing .initial record t) (body : List Stmt) :
    AtRoot (.standard tracing) (finalState (Eval.run (.standard tracing) (.source body) t)) := by
  obtain ⟨p, hp, hroot, rfl⟩ := h.exists_point
  obtain ⟨q, -, hq, hscope, hfinal, -⟩ :=
    (ends_run tracing maxDepth hp (.source body) False.elim).final
  have hatRoot := atRoot_of_good hq (hscope.trans hroot) tracing maxDepth
  rw [hfinal] at hatRoot
  exact hatRoot

end HandsOn

/-- Every evaluation, of any node and from any state, ends in the frame it started in. Units that are added
to a session and run, in any order of calls, are therefore evaluated from the root: each starts in the
state that the one before it has left behind, whatever that one came to, and both its first and its last
state are at the root. There names mean what the root binds, and what a unit declares or defines outside
all blocks is bound in the root. The same holds of the next unit to come. -/
theorem units_start_at_root (reporter : Reporter) (path : String) (interactive : Bool)
    (requests : List Request) :
    let s := Session.start reporter path interactive
    let t := performAll requests s
    let cx := Context.standard s.tracing
    (∀ tracing depth node u, (finalState (Eval.run (.upTo tracing depth) node u)).scope = u.scope) ∧
    (∀ request : Request, Mirrors request.performNoted request.perform) ∧
    ∃ record, performAllNoted requests (s, []) = (t, record) ∧
      HandsOn s.tracing .initial record t.state ∧
      (∀ e ∈ record, e.before.scope = Heap.rootFrame ∧ e.after.scope = Heap.rootFrame ∧
        ∀ body, AtRoot cx (finalState (Eval.run cx (.source body) e.before))) ∧
      t.state.scope = Heap.rootFrame ∧
      ∀ body, AtRoot cx (finalState (Eval.run cx (.source body) t.state)) := by
  intro s t cx
  have hfirst : Unbroken s.tracing (s, []) := by
    cases interactive <;> exact ⟨rfl, .start⟩
  have hstates := (unbroken_performAllNoted hfirst requests).2
  rw [performAllNoted_fst] at hstates
  have hscope {record : List Evaluation} {u : State} (h : HandsOn s.tracing .initial record u) :
      u.scope = Heap.rootFrame := by
    obtain ⟨p, -, hroot, rfl⟩ := h.exists_point
    exact hroot
  refine ⟨scope_run, Request.mirrors_performNoted, _, ?_, hstates, ?_, hscope hstates, hstates.atRoot⟩
  · exact Prod.ext (performAllNoted_fst requests s []) rfl
  · intro e he
    obtain ⟨earlier, hbefore, hafter⟩ := hstates.around he
    exact ⟨hscope hbefore, hscope hafter, hbefore.atRoot⟩

end Session

end ProtoScript
