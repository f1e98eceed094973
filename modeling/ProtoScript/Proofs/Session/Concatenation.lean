import ProtoScript.Proofs.Eval.Outcome
import ProtoScript.Proofs.Token.Spacing
import ProtoScript.Proofs.Tree.Extension
import ProtoScript.Session.Basic

/-!
# Units in a row

Two units that are queued and run one after the other do what one unit does that has a line end between
them. The line end keeps their tokens apart, their statements follow each other, and the session adds
nothing of its own between them but the result of the first.
-/

namespace ProtoScript

section Reading
open Token
variable {first second : String}

/-- A line end between two sources keeps their tokens apart. -/
theorem lex_append_line (h : (lex first).error = none) (h' : (lex second).error = none) :
    (lex (first ++ "\n" ++ second)).error = none ∧
      (lex (first ++ "\n" ++ second)).tokens = (lex first).tokens ++ (lex second).tokens := by
  apply lex_of_cuts
  have hcuts := (cuts_of_lex h).append_line rfl (cuts_of_lex h')
  simpa using hcuts

theorem parseUnit_iff {source : String} {program : Node} :
    parseUnit source = .ok program ↔
      (lex source).error = none ∧ Parser.parse .source (lex source).tokens = .ok program := by
  cases herror : (lex source).error with
  | some e => simp [parseUnit, readTokens, herror, Bind.bind, Except.bind]
  | none =>
      cases hparse : Parser.parse .source (lex source).tokens <;>
        simp [parseUnit, readTokens, herror, hparse, Bind.bind, Except.bind]

/-- Two units with a line end between them are one unit with the statements of both. -/
theorem parseUnit_append_line {body more : List Stmt} (h : parseUnit first = .ok (.source body))
    (h' : parseUnit second = .ok (.source more)) :
    parseUnit (first ++ "\n" ++ second) = .ok (.source (body ++ more)) := by
  obtain ⟨herror, hparse⟩ := parseUnit_iff.mp h
  obtain ⟨herror', hparse'⟩ := parseUnit_iff.mp h'
  obtain ⟨hnone, htokens⟩ := lex_append_line herror herror'
  refine parseUnit_iff.mpr ⟨hnone, ?_⟩
  rw [htokens]
  exact Grammar.parse_source_append hparse hparse'

end Reading

namespace Eval
variable (cx : Context)

theorem runStatements_append (last : Value) (body more : List Stmt) :
    runStatements cx last (body ++ more) =
      runStatements cx last body >>= fun value => runStatements cx value more := by
  induction body generalizing last with
  | nil => rfl
  | cons first rest ih =>
      rw [List.cons_append, runStatements, runStatements]
      simp only [ih, bind_assoc]

/-- The statements of a program have their own nodes to blame. -/
theorem blame_runStatements (node : Node) (last : Value) (body : List Stmt) :
    blame node (runStatements cx last body) = runStatements cx last body := by
  induction body generalizing last with
  | nil => rfl
  | cons first rest ih =>
      have hcomplete (completion : Completion) :
          blame node (complete completion) = complete completion := by
        cases completion with
        | normal value => rfl
        | returned value origin => exact blame_raiseAt node _ _
      rw [runStatements, blame_bind, execStmt.eq_def, blame_blame]
      simp only [blame_bind, hcomplete, ih]

/-- A program with statements behind another one does not see its value. -/
theorem run_source_append (body : List Stmt) {more : List Stmt} (h : more ≠ []) :
    run cx (.source (body ++ more)) = run cx (.source body) >>= fun _ => run cx (.source more) := by
  obtain ⟨first, rest, rfl⟩ := List.exists_cons_of_ne_nil h
  simp only [run, blame_runStatements]
  rw [runStatements_append]
  -- The value of a program that has a statement is that of its last, whatever came before.
  rfl

/-- Runs programs one after the other, and puts their values in front of `results`. -/
def runAll (results : List Value) : List Node → Eval (List Value)
  | [] => return results
  | program :: rest => do
      let value ← run cx program
      runAll (value :: results) rest

theorem runAll_append (results : List Value) (programs more : List Node) :
    runAll cx results (programs ++ more) =
      runAll cx results programs >>= fun results => runAll cx results more := by
  induction programs generalizing results with
  | nil => rfl
  | cons program rest ih =>
      rw [List.cons_append, runAll, runAll]
      simp only [ih, bind_assoc]

/-- Two programs at the end of a queue leave the same latest value as one with the statements of both. -/
theorem runAll_source_append (results : List Value) (programs : List Node) (body : List Stmt)
    {more : List Stmt} (h : more ≠ []) :
    List.head? <$> runAll cx results (programs ++ [.source body, .source more]) =
      List.head? <$> runAll cx results (programs ++ [.source (body ++ more)]) := by
  simp only [runAll_append, runAll, run_source_append cx body h, map_eq_pure_bind, bind_assoc, pure_bind]
  rfl

end Eval

namespace Session
open Eval

/-- How calls are traced in a session. -/
def tracing (s : Session) : Tracing :=
  if s.reporter.verbose then .verbose else .silent

/-- What is left of the queue when a unit has been run. -/
def queueAfter (number : Int) (s : Session) : Table Int QueuedUnit :=
  if s.interactive then s.queue.erase number else s.queue

theorem dequeue_eq (number : Int) (s : Session) :
    dequeue number s = { s with queue := s.queueAfter number } := by
  unfold dequeue queueAfter
  split <;> rfl

theorem evaluateQueued_apply (number : Int) (program : Node) (s : Session) :
    evaluateQueued number program s =
      match Eval.run (.standard s.tracing) program s.state with
      | .ok value state =>
          .ok () { s with state, results := value :: s.results, queue := s.queueAfter number }
      | .error fault state =>
          .error (.ofFault fault) { s with state, queue := s.queueAfter number } := by
  unfold evaluateQueued evaluate tracing
  simp only [dequeue_eq]
  cases Eval.run _ program s.state <;> rfl

/-- A unit changes the state by its program, and adds the value of that to the results. -/
theorem runUnits_cons (number : Int) (text : String) (program : Node) (rest : List (Int × QueuedUnit))
    (s : Session) :
    runUnits ((number, { text, program }) :: rest) s =
      match Eval.run (.standard s.tracing) program s.state with
      | .ok value state =>
          runUnits rest { s with
            state
            results := value :: s.results
            queue := s.queueAfter number
            reporter := (s.reporter.enterUnit s.path { text, number }).leaveUnit s.path }
      | .error fault state =>
          .error (.ofFault fault) { s with
            state
            queue := s.queueAfter number
            reporter := s.reporter.enterUnit s.path { text, number } } := by
  have hstep : runUnits ((number, { text, program }) :: rest) s =
      (do
        evaluateQueued number program
        modifyReporter (·.leaveUnit s.path)
        runUnits rest)
        { s with reporter := s.reporter.enterUnit s.path { text, number } } := rfl
  have htracing : tracing { s with reporter := s.reporter.enterUnit s.path { text, number } } =
      s.tracing := rfl
  rw [hstep, bind_apply, evaluateQueued_apply, htracing]
  cases Eval.run (.standard s.tracing) program s.state <;> rfl

/-- What a session has done is what its programs have done, and nothing else. -/
inductive Shows : EStateM.Result Failure Session Unit → EStateM.Result Fault State (List Value) → Prop
  | ok (s : Session) : Shows (.ok () s) (.ok s.results s.state)
  | error (fault : Fault) (s : Session) : Shows (.error (.ofFault fault) s) (.error fault s.state)

/-- The queue is run program by program, over the state of the session. -/
theorem shows_runUnits (units : List (Int × QueuedUnit)) (s : Session) :
    Shows (runUnits units s)
      (runAll (.standard s.tracing) s.results (units.map (·.2.program)) s.state) := by
  induction units generalizing s with
  | nil => exact .ok s
  | cons unit rest ih =>
      obtain ⟨number, text, program⟩ := unit
      rw [runUnits_cons, List.map_cons, runAll, bind_apply]
      cases Eval.run (.standard s.tracing) program s.state with
      | ok value state =>
          exact ih { s with state, results := value :: s.results, queue := _, reporter := _ }
      | error fault state => exact .error fault _

/-- The programs in the queue. -/
def programs (s : Session) : List Node :=
  s.queue.entries.map (·.2.program)

theorem shows_run (s : Session) :
    Shows (run s) (runAll (.standard s.tracing) s.results s.programs s.state) := by
  have hrun : run s =
      (do
        runUnits s.queue.entries
        unless (← get).interactive do
          modify fun s => { s with queue := {} } : SessionStep Unit) s := rfl
  have hunits : Shows (runUnits s.queue.entries s)
      (runAll (.standard s.tracing) s.results s.programs s.state) := shows_runUnits s.queue.entries s
  rw [hrun, bind_apply]
  generalize runUnits s.queue.entries s = result at hunits ⊢
  generalize runAll (.standard s.tracing) s.results s.programs s.state = values at hunits ⊢
  cases hunits with
  | error fault t => exact .error fault t
  | ok t =>
      obtain ⟨reporter, path, interactive, state, queue, results⟩ := t
      cases interactive with
      | true => exact .ok _
      | false => exact .ok ⟨reporter, path, false, state, {}, results⟩

/-- The session with one more unit in its queue. -/
def queued (s : Session) (number : Int) (unit : QueuedUnit) : Session :=
  { s with
    queue := s.queue.set number unit
    reporter := (s.reporter.enterUnit s.path { text := unit.text, number }).leaveUnit s.path }

theorem enqueue_apply {text : String} {program : Node} (h : parseUnit text = .ok program) (number : Int)
    (s : Session) : enqueue text number s = .ok () (s.queued number { text, program }) := by
  unfold enqueue
  rw [h]
  rfl

theorem enqueue_then {text : String} {program : Node} (h : parseUnit text = .ok program) (number : Int)
    (next : SessionStep Unit) (s : Session) :
    (do enqueue text number; next : SessionStep Unit) s = next (s.queued number { text, program }) := by
  rw [bind_apply, enqueue_apply h]

/-- A unit under a new number is queued last. -/
theorem entries_set {queue : Table Int QueuedUnit} {number : Int} (h : number ∉ queue.keys)
    (unit : QueuedUnit) : (queue.set number unit).entries = queue.entries ++ [(number, unit)] := by
  obtain ⟨entries⟩ := queue
  simp only [Table.keys, Table.set] at h ⊢
  induction entries with
  | nil => rfl
  | cons entry rest ih =>
      simp only [List.map_cons, List.mem_cons, not_or] at h
      rw [Table.put, if_neg (Ne.symm h.1), ih h.2, List.cons_append]

theorem programs_queued {s : Session} {number : Int} (h : number ∉ s.queue.keys) (unit : QueuedUnit) :
    (s.queued number unit).programs = s.programs ++ [unit.program] := by
  rw [programs, queued, entries_set h, List.map_append]
  rfl

/-- The failure that ended a step of a session, if one did. -/
def failure? {α : Type} : EStateM.Result Failure Session α → Option Failure
  | .ok _ _ => none
  | .error failure _ => some failure

/-- The session that a step leaves behind. -/
def after {α : Type} : EStateM.Result Failure Session α → Session
  | .ok _ s => s
  | .error _ s => s

/-- Two steps of sessions end with the same failure or none, in the same state of the evaluation and, if
they succeed, with the same latest result. -/
structure EndsAlike (r r' : EStateM.Result Failure Session Unit) : Prop where
  failure : failure? r = failure? r'
  state : (after r).state = (after r').state
  latest : failure? r = none → (after r).results.head? = (after r').results.head?

/-- What shows the same states and latest values ends alike. -/
theorem Shows.endsAlike {r r' : EStateM.Result Failure Session Unit} {m m' : Eval (List Value)}
    {s : State} (h : Shows r (m s)) (h' : Shows r' (m' s))
    (hm : List.head? <$> m = List.head? <$> m') : EndsAlike r r' := by
  have hs : (List.head? <$> m) s = (List.head? <$> m') s := by rw [hm]
  rw [map_eq_pure_bind, map_eq_pure_bind, bind_apply, bind_apply] at hs
  generalize m s = a at h hs
  generalize m' s = a' at h' hs
  cases h with
  | ok t =>
      cases h' with
      | ok t' =>
          obtain ⟨hhead, hstate⟩ := EStateM.Result.ok.inj hs
          exact ⟨rfl, hstate, fun _ => hhead⟩
      | error => cases hs
  | error fault t =>
      cases h' with
      | ok => cases hs
      | error fault' t' =>
          obtain ⟨rfl, hstate⟩ := EStateM.Result.error.inj hs
          exact ⟨rfl, hstate, fun h => by cases h⟩

/-- Two units that are queued under numbers of their own and run do what one unit does that has a line
end between them. Their tokens and their statements follow each other. Both sessions end with the same
failure or none, write the same lines, and leave the same bindings and objects; and if they succeed, the
latest result is the same. -/
theorem units_concatenate {first second : String} {body more : List Stmt}
    (hfirst : parseUnit first = .ok (.source body)) (hsecond : parseUnit second = .ok (.source more))
    (hmore : more ≠ []) (s : Session) {m n k : Int} (hm : m ∉ s.queue.keys) (hn : n ∉ s.queue.keys)
    (hmn : m ≠ n) (hk : k ∉ s.queue.keys) :
    (Token.lex (first ++ "\n" ++ second)).error = none ∧
      (Token.lex (first ++ "\n" ++ second)).tokens =
        (Token.lex first).tokens ++ (Token.lex second).tokens ∧
      parseUnit (first ++ "\n" ++ second) = .ok (.source (body ++ more)) ∧
      EndsAlike
        ((do
          enqueue first m
          enqueue second n
          run : SessionStep Unit) s)
        ((do
          enqueue (first ++ "\n" ++ second) k
          run : SessionStep Unit) s) := by
  obtain ⟨herror, htokens⟩ :=
    lex_append_line (parseUnit_iff.mp hfirst).1 (parseUnit_iff.mp hsecond).1
  have hboth := parseUnit_append_line hfirst hsecond
  refine ⟨herror, htokens, hboth, ?_⟩
  rw [enqueue_then hfirst, enqueue_then hsecond, enqueue_then hboth]
  have hlast : n ∉ (s.queued m ⟨first, .source body⟩).queue.keys := by
    simp [queued, Table.keys_set, hm, hn, hmn.symm]
  have htwo := shows_run ((s.queued m ⟨first, .source body⟩).queued n ⟨second, .source more⟩)
  have hone := shows_run (s.queued k ⟨first ++ "\n" ++ second, .source (body ++ more)⟩)
  rw [programs_queued hlast, programs_queued hm, List.append_assoc] at htwo
  rw [programs_queued hk] at hone
  exact htwo.endsAlike hone (runAll_source_append _ s.results s.programs body hmore)

/-- A first unit that ends in a comment, at a prompt. -/
theorem units_concatenate_comment :
    let s := Session.start {} promptPath true
    let body : List Stmt := [.declare ⟨"x", some (.literal (.int 1))⟩]
    let more : List Stmt := [.perform (.binary .add (.name "x") (.literal (.int 2)))]
    parseUnit "LET x = 1; // one" = .ok (.source body) ∧ parseUnit "x + 2;" = .ok (.source more) ∧
      s.queue.keys = [] ∧
      parseUnit ("LET x = 1; // one" ++ "\n" ++ "x + 2;") = .ok (.source (body ++ more)) ∧
      EndsAlike
        ((do
          enqueue "LET x = 1; // one" 1
          enqueue "x + 2;" 2
          run : SessionStep Unit) s)
        ((do
          enqueue ("LET x = 1; // one" ++ "\n" ++ "x + 2;") 1
          run : SessionStep Unit) s) := by
  intro s body more
  have hbody : parseUnit "LET x = 1; // one" = .ok (.source body) := rfl
  have hmore : parseUnit "x + 2;" = .ok (.source more) := rfl
  have hkeys : s.queue.keys = [] := rfl
  have hfresh (number : Int) : number ∉ s.queue.keys := by simp [hkeys]
  obtain ⟨-, -, hparse, hends⟩ := units_concatenate hbody hmore (List.cons_ne_nil _ _) s
    (hfresh 1) (hfresh 2) (by decide) (hfresh 1)
  exact ⟨hbody, hmore, hkeys, hparse, hends⟩

end Session

end ProtoScript
