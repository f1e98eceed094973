import Mathlib.Data.List.Nodup
import ProtoScript.Proofs.Session.Record

/-!
# The queue of a session

At a prompt, units are added to a queue and run from it, in any order of calls. All evaluations of units
are put on record. The units on record and those in the queue together are the units that were added, in
that order: none is lost, and none is evaluated twice. A run that fails stops at the unit that fails, and
leaves the later ones for the next run.
-/

namespace ProtoScript

/-- Without its first entry, a table of distinct keys has the other entries. -/
theorem Table.entries_erase_head {κ α : Type} [DecidableEq κ] {key : κ} {value : α}
    {rest : List (κ × α)} (h : key ∉ rest.map Prod.fst) :
    ((⟨(key, value) :: rest⟩ : Table κ α).erase key).entries = rest := by
  have hrest : rest.filter (fun entry => decide (entry.1 ≠ key)) = rest := by
    refine List.filter_eq_self.mpr fun entry he => decide_eq_true ?_
    rintro rfl
    exact h (List.mem_map_of_mem he)
  simp only [erase, List.filter_cons, ne_eq, not_true_eq_false, decide_false, Bool.false_eq_true,
    if_false]
  exact hrest

namespace Session
open Eval OnRecord

/-- An evaluation of a queued unit: the states at its start and its end, and what came of it. -/
structure Evaluation where
  number : Int
  unit : QueuedUnit
  before : State
  after : State
  result : Except Failure Value

namespace Evaluation

/-- The evaluation of a unit that started in a session and ended in a result. -/
def make (number : Int) (unit : QueuedUnit) (s : Session) :
    EStateM.Result Failure Session Value → Evaluation
  | .ok value t => { number, unit, before := s.state, after := t.state, result := .ok value }
  | .error failure t => { number, unit, before := s.state, after := t.state, result := .error failure }

/-- The entry of the queue that was evaluated. -/
def entry (e : Evaluation) : Int × QueuedUnit :=
  (e.number, e.unit)

/-- The value that was found, if one was. -/
def value? (e : Evaluation) : Option Value :=
  e.result.toOption

/-- A value was found. -/
def Succeeds (e : Evaluation) : Prop :=
  ∃ value, e.result = .ok value

end Evaluation

section Noted

/-- Like `evaluateQueued`, with the evaluation put on record. -/
def evaluateNoted (number : Int) (unit : QueuedUnit) : OnRecord Failure Session Evaluation Unit :=
  fun s =>
    match noted (Evaluation.make number unit) (evaluate unit.program) s with
    | .ok value (s, record) => .ok () (dequeue number { s with results := value :: s.results }, record)
    | .error failure (s, record) => .error failure (dequeue number s, record)

/-- Like `runUnits`, with all evaluations put on record. -/
def runUnitsNoted : List (Int × QueuedUnit) → OnRecord Failure Session Evaluation Unit
  | [] => return
  | (number, unit) :: rest => do
      let path := (← quiet get).path
      quiet (modifyReporter (·.enterUnit path { text := unit.text, number }))
      evaluateNoted number unit
      quiet (modifyReporter (·.leaveUnit path))
      runUnitsNoted rest

/-- Like `run`, with all evaluations put on record. -/
def runNoted : OnRecord Failure Session Evaluation Unit := do
  runUnitsNoted (← quiet get).queue.entries
  unless (← quiet get).interactive do
    quiet (modify fun s => { s with queue := {} })

theorem mirrors_evaluateNoted (number : Int) (unit : QueuedUnit) :
    Mirrors (evaluateNoted number unit) (evaluateQueued number unit.program) := by
  intro s record
  simp only [evaluateNoted, evaluateQueued, noted]
  cases evaluate unit.program s <;> rfl

theorem mirrors_runUnitsNoted (units : List (Int × QueuedUnit)) :
    Mirrors (runUnitsNoted units) (runUnits units) := by
  induction units with
  | nil => exact .pure ()
  | cons unit rest ih =>
      obtain ⟨number, text, program⟩ := unit
      refine .bind (.quiet get) fun s => .bind (.quiet _) fun _ => ?_
      exact .bind (mirrors_evaluateNoted number _) fun _ => .bind (.quiet _) fun _ => ih

/-- A run on record is a run. -/
theorem mirrors_runNoted : Mirrors runNoted run := by
  refine .bind (.quiet get) fun s => .bind (mirrors_runUnitsNoted _) fun _ => ?_
  refine .bind (.quiet get) fun t => ?_
  cases t.interactive with
  | true => exact .pure ()
  | false => exact .quiet (modify fun s : Session => { s with queue := {} })

end Noted

/-- What becomes of a queue: the units at its front have been evaluated, and the results of those that
succeeded are there. -/
structure Progress (s t : Session) (done : List Evaluation) : Prop where
  order : s.queue.entries = done.map Evaluation.entry ++ t.queue.entries
  results : t.results = (done.filterMap Evaluation.value?).reverse ++ s.results
  interactive : t.interactive = s.interactive

/-- How a run of the queue ends: with an empty queue, or behind the first unit that fails. -/
inductive Consumes (s : Session) (record : List Evaluation) :
    EStateM.Result Failure (Session × List Evaluation) Unit → Prop
  | all {t : Session} {done : List Evaluation} (hp : Progress s t done) (hempty : t.queue.entries = [])
      (hdone : ∀ e ∈ done, e.Succeeds) : Consumes s record (.ok () (t, record ++ done))
  | stopped {t : Session} {done : List Evaluation} {last : Evaluation} {failure : Failure}
      (hp : Progress s t (done ++ [last])) (hdone : ∀ e ∈ done, e.Succeeds)
      (hlast : last.result = .error failure) :
      Consumes s record (.error failure (t, record ++ (done ++ [last])))

section Runs
variable {s t : Session} {record : List Evaluation}

/-- The session behind the evaluation of a unit that succeeds. -/
def passed (s : Session) (number : Int) (unit : QueuedUnit) (value : Value) (state : State) : Session :=
  { s with
    state
    results := value :: s.results
    queue := s.queueAfter number
    reporter := (s.reporter.enterUnit s.path { text := unit.text, number }).leaveUnit s.path }

/-- The session behind the evaluation of a unit that fails. -/
def broken (s : Session) (number : Int) (unit : QueuedUnit) (state : State) : Session :=
  { s with
    state
    queue := s.queueAfter number
    reporter := s.reporter.enterUnit s.path { text := unit.text, number } }

theorem evaluateNoted_apply (number : Int) (unit : QueuedUnit) :
    evaluateNoted number unit (s, record) =
      match Eval.run (.standard s.tracing) unit.program s.state with
      | .ok value state =>
          .ok () ({ s with state, results := value :: s.results, queue := s.queueAfter number },
            record ++ [{ number, unit, before := s.state, after := state, result := .ok value }])
      | .error fault state =>
          .error (.ofFault fault) ({ s with state, queue := s.queueAfter number },
            record ++ [{ number, unit, before := s.state, after := state
                         result := .error (.ofFault fault) }]) := by
  unfold evaluateNoted noted evaluate tracing
  simp only [dequeue_eq]
  cases Eval.run _ unit.program s.state <;> rfl

theorem runUnitsNoted_cons (number : Int) (unit : QueuedUnit) (rest : List (Int × QueuedUnit)) :
    runUnitsNoted ((number, unit) :: rest) (s, record) =
      match Eval.run (.standard s.tracing) unit.program s.state with
      | .ok value state =>
          runUnitsNoted rest
            (s.passed number unit value state,
              record ++ [{ number, unit, before := s.state, after := state, result := .ok value }])
      | .error fault state =>
          .error (.ofFault fault)
            (s.broken number unit state,
              record ++ [{ number, unit, before := s.state, after := state
                           result := .error (.ofFault fault) }]) := by
  have hstep : runUnitsNoted ((number, unit) :: rest) (s, record) =
      (do
        evaluateNoted number unit
        quiet (modifyReporter (·.leaveUnit s.path))
        runUnitsNoted rest : OnRecord Failure Session Evaluation Unit)
        ({ s with reporter := s.reporter.enterUnit s.path { text := unit.text, number } }, record) := rfl
  have htracing : tracing { s with reporter := s.reporter.enterUnit s.path { text := unit.text, number } } =
      s.tracing := rfl
  rw [hstep, bind_apply, evaluateNoted_apply, htracing]
  cases Eval.run (.standard s.tracing) unit.program s.state <;> rfl

/-- At a prompt, a unit that has been evaluated is off the queue. -/
theorem queueAfter_entries {number : Int} {unit : QueuedUnit} {rest : List (Int × QueuedUnit)}
    (hs : s.interactive = true) (hq : s.queue.entries = (number, unit) :: rest)
    (hd : number ∉ rest.map Prod.fst) : (s.queueAfter number).entries = rest := by
  have hqueue : s.queue = ⟨(number, unit) :: rest⟩ := by rw [← hq]
  rw [queueAfter, if_pos hs, hqueue]
  exact Table.entries_erase_head hd

/-- A run may start with a unit that succeeds. -/
theorem Consumes.cons {e : Evaluation} {r : EStateM.Result Failure (Session × List Evaluation) Unit}
    (hp : Progress s t [e]) (he : e.Succeeds) (h : Consumes t (record ++ [e]) r) :
    Consumes s record r := by
  have hprogress {u : Session} {done : List Evaluation} (hdone : Progress t u done) :
      Progress s u (e :: done) := by
    obtain ⟨value, hvalue⟩ := he
    have hresults := hp.results
    refine ⟨?_, ?_, hdone.interactive.trans hp.interactive⟩
    · rw [hp.order, hdone.order]
      rfl
    · simp only [Evaluation.value?, List.filterMap_cons, hvalue, Except.toOption, List.filterMap_nil,
        List.reverse_cons, List.append_assoc] at hresults ⊢
      rw [hdone.results, hresults]
      rfl
  cases h with
  | @all u done hdone hempty hok =>
      rw [List.append_assoc]
      exact .all (hprogress hdone) hempty (List.forall_mem_cons.mpr ⟨he, hok⟩)
  | @stopped u done last failure hdone hok hlast =>
      rw [List.append_assoc]
      exact .stopped (hprogress hdone) (List.forall_mem_cons.mpr ⟨he, hok⟩) hlast

theorem consumes_runUnitsNoted {units : List (Int × QueuedUnit)} (hs : s.interactive = true)
    (hq : s.queue.entries = units) (hd : (units.map Prod.fst).Nodup) :
    Consumes s record (runUnitsNoted units (s, record)) := by
  induction units generalizing s record with
  | nil =>
      have hnone : Progress s s [] := ⟨rfl, rfl, rfl⟩
      have hall : Consumes s record (.ok () (s, record ++ [])) := .all hnone hq (by simp)
      rwa [List.append_nil] at hall
  | cons entry rest ih =>
      obtain ⟨number, unit⟩ := entry
      obtain ⟨hnumber, hrest⟩ := List.nodup_cons.mp hd
      have hqueue := queueAfter_entries hs hq hnumber
      rw [runUnitsNoted_cons]
      cases Eval.run (.standard s.tracing) unit.program s.state with
      | ok value state =>
          have hpassed : Progress s (s.passed number unit value state)
              [{ number, unit, before := s.state, after := state, result := .ok value }] :=
            ⟨hq.trans (congrArg (_ :: ·) hqueue.symm), rfl, rfl⟩
          exact .cons hpassed ⟨value, rfl⟩ (ih hs hqueue hrest)
      | error fault state =>
          have hbroken : Progress s (s.broken number unit state)
              ([] ++ [{ number, unit, before := s.state, after := state
                        result := .error (.ofFault fault) }]) :=
            ⟨hq.trans (congrArg (_ :: ·) hqueue.symm), rfl, rfl⟩
          exact .stopped hbroken (by simp) rfl

/-- The session behind a run that succeeds. Without a prompt its queue is empty. -/
def finished (s : Session) : Session :=
  if s.interactive then s else { s with queue := {} }

theorem run_apply (s : Session) :
    run s =
      match runUnits s.queue.entries s with
      | .ok _ t => .ok () t.finished
      | .error failure t => .error failure t := by
  have hrun : run s =
      (do
        runUnits s.queue.entries
        unless (← get).interactive do
          modify fun s => { s with queue := {} } : SessionStep Unit) s := rfl
  rw [hrun, bind_apply]
  rcases runUnits s.queue.entries s with ⟨_, t⟩ | _
  · obtain ⟨reporter, path, interactive, state, queue, results⟩ := t
    cases interactive <;> rfl
  · rfl

theorem runNoted_apply :
    runNoted (s, record) =
      match runUnitsNoted s.queue.entries (s, record) with
      | .ok _ (t, record) => .ok () (t.finished, record)
      | .error failure t => .error failure t := by
  have hrun : runNoted (s, record) =
      (do
        runUnitsNoted s.queue.entries
        unless (← quiet get).interactive do
          quiet (modify fun s => { s with queue := {} }) : OnRecord Failure Session Evaluation Unit)
        (s, record) := rfl
  rw [hrun, bind_apply]
  rcases runUnitsNoted s.queue.entries (s, record) with ⟨_, t, _⟩ | _
  · obtain ⟨reporter, path, interactive, state, queue, results⟩ := t
    cases interactive <;> rfl
  · rfl

/-- A run at a prompt evaluates the units of the queue, one after the other, up to the first failure. -/
theorem consumes_runNoted (hs : s.interactive = true) (hd : s.queue.keys.Nodup) :
    Consumes s record (runNoted (s, record)) := by
  have hunits : Consumes s record _ := consumes_runUnitsNoted hs rfl hd
  rw [runNoted_apply]
  generalize runUnitsNoted s.queue.entries (s, record) = r at hunits ⊢
  cases hunits with
  | @all t done hp hempty hdone =>
      have hfinished : t.finished = t := if_pos (hp.interactive.trans hs)
      simp only [hfinished]
      exact .all hp hempty hdone
  | stopped hp hdone hlast => exact .stopped hp hdone hlast

end Runs

/-- What a session can be asked for from outside. -/
inductive Request
  | add (text : String) (number : Int)
  | run
  deriving DecidableEq, Repr

namespace Request

/-- Does what is asked for. -/
def perform : Request → SessionStep Unit
  | add text number => enqueue text number
  | run => Session.run

/-- Like `perform`, with all evaluations put on record. -/
def performNoted : Request → OnRecord Failure Session Evaluation Unit
  | add text number => quiet (enqueue text number)
  | run => runNoted

/-- The entries that a request brings to the queue: a unit that can be parsed, if one is added. -/
def accepted : Request → List (Int × QueuedUnit)
  | add text number =>
      match parseUnit text with
      | .ok program => [(number, { text, program })]
      | .error _ => []
  | run => []

theorem accepted_of_ok {text : String} {program : Node} (h : parseUnit text = .ok program)
    (number : Int) : (add text number).accepted = [(number, { text, program })] := by
  rw [accepted, h]

theorem accepted_of_error {text : String} {failure : Failure} (h : parseUnit text = .error failure)
    (number : Int) : (add text number).accepted = [] := by
  rw [accepted, h]

theorem mirrors_performNoted (request : Request) : Mirrors request.performNoted request.perform := by
  cases request with
  | add text number => exact .quiet _
  | run => exact mirrors_runNoted

end Request

/-- Does what is asked for, request by request, whether or not one fails. -/
def performAll (requests : List Request) (s : Session) : Session :=
  requests.foldl (fun s request => after (request.perform s)) s

/-- Like `performAll`, with all evaluations put on record. -/
def performAllNoted (requests : List Request) (s : Session × List Evaluation) :
    Session × List Evaluation :=
  requests.foldl (fun s request => final (request.performNoted s)) s

/-- No unit is added under the number of another one that is still in the queue. -/
def Fresh (s : Session) : List Request → Prop
  | [] => True
  | request :: rest =>
      (∀ entry ∈ request.accepted, entry.1 ∉ s.queue.keys) ∧ Fresh (after (request.perform s)) rest

/-- A unit that cannot be parsed changes nothing but what is reported about it. -/
theorem enqueue_of_error {text : String} {failure : Failure} (h : parseUnit text = .error failure)
    (number : Int) (s : Session) :
    enqueue text number s =
      .error failure { s with reporter := s.reporter.enterUnit s.path { text, number } } := by
  unfold enqueue
  rw [h]
  rfl

theorem final_quiet (step : SessionStep Unit) (s : Session) (record : List Evaluation) :
    final (quiet step (s, record)) = (after (step s), record) := by
  rw [quiet]
  cases step s <;> rfl

/-- How a session stands behind requests: the units of the record and of the queue are those that were
added, in that order, and there is a result for each unit that succeeded. -/
structure Accounts (s t : Session) (added : List (Int × QueuedUnit)) (record : List Evaluation) :
    Prop where
  order : s.queue.entries ++ added = record.map Evaluation.entry ++ t.queue.entries
  results : t.results = (record.filterMap Evaluation.value?).reverse ++ s.results
  interactive : t.interactive = true
  distinct : t.queue.keys.Nodup

namespace Accounts
variable {s t : Session} {added : List (Int × QueuedUnit)} {record : List Evaluation}

/-- Evaluations move units from the queue to the record. -/
theorem progress {u : Session} {done : List Evaluation} (h : Accounts s t added record)
    (hp : Progress t u done) : Accounts s u added (record ++ done) where
  order := by rw [h.order, hp.order, List.map_append, List.append_assoc]
  results := by
    rw [hp.results, h.results, List.filterMap_append, List.reverse_append, List.append_assoc]
  interactive := hp.interactive.trans h.interactive
  distinct := by
    have hkeys := h.distinct
    rw [Table.keys, hp.order, List.map_append] at hkeys
    exact hkeys.of_append_right

/-- A new unit comes last in the queue. -/
theorem add (h : Accounts s t added record) {text : String} {number : Int}
    (hfresh : ∀ entry ∈ (Request.add text number).accepted, entry.1 ∉ t.queue.keys) :
    Accounts s (after (enqueue text number t)) (added ++ (Request.add text number).accepted)
      record := by
  cases hparse : parseUnit text with
  | error failure =>
      rw [enqueue_of_error hparse, Request.accepted_of_error hparse, List.append_nil]
      exact ⟨h.order, h.results, h.interactive, h.distinct⟩
  | ok program =>
      rw [Request.accepted_of_ok hparse, List.forall_mem_singleton] at hfresh
      rw [enqueue_apply hparse, Request.accepted_of_ok hparse]
      refine ⟨?_, h.results, h.interactive, ?_⟩
      · rw [← List.append_assoc, h.order, List.append_assoc]
        exact congrArg _ (entries_set hfresh { text, program }).symm
      · have hkeys : (t.queue.set number { text, program }).keys.Nodup := by
          rw [Table.keys_set, if_neg hfresh]
          exact h.distinct.append (List.nodup_singleton number) (by simpa using hfresh)
        exact hkeys

/-- What one request keeps. -/
theorem perform (h : Accounts s t added record) (request : Request)
    (hfresh : ∀ entry ∈ request.accepted, entry.1 ∉ t.queue.keys) :
    Accounts s (final (request.performNoted (t, record))).1 (added ++ request.accepted)
      (final (request.performNoted (t, record))).2 := by
  cases request with
  | add text number =>
      rw [Request.performNoted, final_quiet]
      exact h.add hfresh
  | run =>
      rw [Request.accepted, List.append_nil]
      have hrun : Consumes t record _ := consumes_runNoted h.interactive h.distinct
      rw [Request.performNoted]
      generalize runNoted (t, record) = r at hrun ⊢
      cases hrun with
      | all hp _ _ => exact h.progress hp
      | stopped hp _ _ => exact h.progress hp

end Accounts

theorem after_perform (request : Request) (s : Session) (record : List Evaluation) :
    after (request.perform s) = (final (request.performNoted (s, record))).1 := by
  rw [← request.mirrors_performNoted s record]
  rcases request.performNoted (s, record) with ⟨_, _, _⟩ | ⟨_, _, _⟩ <;> rfl

/-- What all requests keep. -/
theorem accounts_performAllNoted {s t : Session} {added : List (Int × QueuedUnit)}
    {record : List Evaluation} (h : Accounts s t added record) {requests : List Request}
    (hfresh : Fresh t requests) :
    Accounts s (performAllNoted requests (t, record)).1 (added ++ requests.flatMap Request.accepted)
      (performAllNoted requests (t, record)).2 := by
  induction requests generalizing t added record with
  | nil =>
      rw [List.flatMap_nil, List.append_nil]
      exact h
  | cons request rest ih =>
      obtain ⟨hfirst, hrest⟩ := hfresh
      rw [after_perform request t record] at hrest
      rw [List.flatMap_cons, ← List.append_assoc]
      exact ih (h.perform request hfirst) hrest

theorem performAllNoted_fst (requests : List Request) (s : Session) (record : List Evaluation) :
    (performAllNoted requests (s, record)).1 = performAll requests s := by
  induction requests generalizing s record with
  | nil => rfl
  | cons request rest ih =>
      change (performAllNoted rest (final (request.performNoted (s, record)))).1 =
        performAll rest (after (request.perform s))
      rw [after_perform request s record]
      exact ih _ _

/-- Units are added at a prompt and run, in any order of calls, and each is added under a number that no
other one in the queue has. Then the units that were evaluated, one after the other, and those that are
still in the queue are together the units that were added, in that order, and each evaluation that
succeeded has left one result. The next run empties the queue, or it stops behind the first unit that
fails and leaves all later ones. A unit that cannot be parsed changes neither the queue nor the results nor
the state of the evaluation. -/
theorem queued_units_run_once {s : Session} (hs : s.interactive = true) (hd : s.queue.keys.Nodup)
    {requests : List Request} (hfresh : Fresh s requests) :
    let t := performAll requests s
    (∀ request : Request, Mirrors request.performNoted request.perform) ∧
    (∃ record, performAllNoted requests (s, []) = (t, record) ∧
      Accounts s t (requests.flatMap Request.accepted) record) ∧
    Consumes t [] (runNoted (t, [])) ∧
    ∀ text number,
      (∀ u, enqueue text number t = .ok () u → ∃ program,
        (Request.add text number).accepted = [(number, { text, program })] ∧
          u.queue = t.queue.set number { text, program } ∧ u.results = t.results ∧ u.state = t.state) ∧
      ∀ failure u, enqueue text number t = .error failure u →
        (Request.add text number).accepted = [] ∧
          u.queue = t.queue ∧ u.results = t.results ∧ u.state = t.state := by
  intro t
  have hnone : Accounts s s [] [] := ⟨List.append_nil _, rfl, hs, hd⟩
  have haccounts := accounts_performAllNoted hnone hfresh
  rw [performAllNoted_fst] at haccounts
  refine ⟨Request.mirrors_performNoted, ⟨_, ?_, haccounts⟩, ?_, fun text number => ?_⟩
  · exact Prod.ext (performAllNoted_fst requests s []) rfl
  · exact consumes_runNoted haccounts.interactive haccounts.distinct
  cases hparse : parseUnit text with
  | ok program =>
      rw [enqueue_apply hparse, Request.accepted_of_ok hparse]
      constructor
      · rintro u ⟨⟩
        exact ⟨program, rfl, rfl, rfl, rfl⟩
      · rintro failure u ⟨⟩
  | error failure =>
      rw [enqueue_of_error hparse, Request.accepted_of_error hparse]
      constructor
      · rintro u ⟨⟩
      · rintro failure u ⟨⟩
        exact ⟨rfl, rfl, rfl, rfl⟩

/-- The second unit fails as its name is taken, the third cannot be parsed, and the last one is left for
the second run. -/
theorem queued_units_run_once_duplicate :
    let s := Session.start {} promptPath true
    let requests : List Request :=
      [.add "LET x = 1;" 1, .add "LET x = 2;" 2, .add "LET" 3, .add "x;" 4, .run, .run]
    let t := performAll requests s
    s.interactive = true ∧ s.queue.keys.Nodup ∧ Fresh s requests ∧
      ∃ record, performAllNoted requests (s, []) = (t, record) ∧
        Accounts s t (requests.flatMap Request.accepted) record := by
  intro s requests t
  have hs : s.interactive = true := rfl
  have hd : s.queue.keys.Nodup := List.nodup_nil
  have hfresh : Fresh s requests := by
    refine ⟨?_, ?_, ?_, ?_, ?_, ?_, trivial⟩
    all_goals decide
  exact ⟨hs, hd, hfresh, (queued_units_run_once hs hd hfresh).2.1⟩

end Session

end ProtoScript
