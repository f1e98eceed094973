import ProtoScript.Proofs.Eval.Draws
import ProtoScript.Proofs.Eval.Trail

/-!
# Where the parts of a run come from

Every step of an evaluation draws on the stock of its state and its program, and adds nothing. So the node
that an error blames is a part of the program, or of the definition of a function that was in the heap when
the run began; and by the trail of the error it is the node that the error was raised with, or the innermost
one that it left.
-/

namespace ProtoScript

/-- The stock of all characters and of some nodes with their parts. -/
def Stock.ofRoots (roots : Node → Prop) : Stock where
  toAlphabet := .full
  node n := ∃ root, roots root ∧ n.Within root
  part := fun ⟨root, hroot, hn⟩ hp => ⟨root, hroot, hn.part hp⟩
  word _ _ _ := fun _ _ => trivial

/-- A function with the definition is bound in the heap, by itself or in a list. -/
def Heap.Stores (h : Heap) (d : Definition) : Prop :=
  ∃ frame, ∃ entry ∈ (h.bindings frame).entries, ∃ function : Function,
    .function function ∈ entry.2.leaves ∧ ∃ scope, function.body = .closure d scope

namespace Eval
variable {program : Node} {s t : State} {e : EvalError}

/-- The program, and the definitions of the functions in a heap. -/
def Rooted (program : Node) (h : Heap) (root : Node) : Prop :=
  root = program ∨ ∃ d, h.Stores d ∧ root = .stmt (.define d)

/-- Any state is stocked by all characters, the program and the functions of its own heap. -/
theorem stocked_ofRoots (program : Node) (s : State) :
    (Stock.ofRoots (Rooted program s.heap)).Stocked s := by
  have hspelled (text : String) : (Stock.ofRoots (Rooted program s.heap)).Spells text := fun _ _ => trivial
  constructor
  · intro f entry he
    refine ⟨hspelled _, fun leaf hl => ?_⟩
    cases leaf with
    | function function =>
        refine ⟨hspelled _, fun d scope hbody => ⟨_, .inr ⟨d, ?_, rfl⟩, .refl _⟩⟩
        exact ⟨f, entry, he, function, hl, scope, hbody⟩
    | character text | string text => exact hspelled text
    | object o => exact fun name _ => hspelled name
    | nil | bool | int | decimal | list | foreign => trivial
  · intro event _
    cases event <;> exact hspelled _

/-- An error that leaves a node on whose behalf a step ran has a node to blame. -/
theorem exists_node_of_blame {α : Type} {node : Node} {step : Eval α}
    (h : blame node step s = .error (.error e) t) : ∃ blamed, e.node = some blamed := by
  unfold blame at h
  split at h
  · cases h
  · next fault _ _ =>
      cases fault with
      | error raised =>
          cases h
          exact ⟨_, rfl⟩
      | endless | breakdown reason => cases h

theorem exists_node_of_ofError {raised : EvalError} {node : Node} (hr : raised.node = some node)
    (h : Fault.ofError raised = .error e) : ∃ blamed, e.node = some blamed := by
  unfold Fault.ofError at h
  split at h
  · cases h
    exact ⟨node, hr⟩
  · cases h

/-- Every error of a run has a node to blame. -/
theorem exists_node_of_run {cx : Context} (h : run cx program s = .error (.error e) t) :
    ∃ blamed, e.node = some blamed := by
  cases program with
  | source statements => exact exists_node_of_blame h
  | expr expression =>
      rw [run, evalExpr.eq_def] at h
      exact exists_node_of_blame h
  | stmt statement =>
      rw [run, bind_apply] at h
      split at h
      · next completion _ _ =>
          cases completion with
          | normal value => cases h
          | returned value origin =>
              injection h with hfault _
              exact exists_node_of_ofError rfl hfault
      · next hstep =>
          cases h
          rw [execStmt.eq_def] at hstep
          exact exists_node_of_blame hstep

/-- The error as it was raised, and the nodes that it has left. -/
theorem exists_trail (tracing : Tracing) (depth : Nat)
    (h : run (.upTo tracing depth) program s = .error (.error e) t) :
    ∃ raised visits, Trailing.run tracing depth program s = .error { fault := .error raised, visits } t ∧
      raised.cause = e.cause ∧ e.node = raised.node.or visits.head? := by
  rw [← Trailing.settled_run] at h
  unfold Trailing.settled at h
  split at h
  · cases h
  · next departure _ htrail =>
      obtain ⟨fault, visits⟩ := departure
      cases fault with
      | error raised =>
          cases h
          exact ⟨raised, visits, htrail, rfl, rfl⟩
      | endless | breakdown reason => cases h

/-- An error of a run has a node to blame. This is a part of the program, or of the definition of a function
that was in the heap before; and it is the node that the error was raised with, or if there was none, the
innermost node that the error left, whatever nodes it left after that. -/
theorem error_blames_innermost_visit (tracing : Tracing) (depth : Nat)
    (h : run (.upTo tracing depth) program s = .error (.error e) t) :
    ∃ node, e.node = some node ∧
      (node.Within program ∨ ∃ d, s.heap.Stores d ∧ node.Within (.stmt (.define d))) ∧
      ∃ raised visits, Trailing.run tracing depth program s = .error { fault := .error raised, visits } t ∧
        raised.cause = e.cause ∧
        (raised.node = some node ∨ raised.node = none ∧ visits.head? = some node) := by
  obtain ⟨node, hnode⟩ := exists_node_of_run h
  obtain ⟨raised, visits, htrail, hcause, hsettled⟩ := exists_trail tracing depth h
  refine ⟨node, hnode, ?_, raised, visits, htrail, hcause, ?_⟩
  -- The stock of the program and of all stored definitions: whatever is blamed is a part of one of them.
  · have hends := Stock.draws_run tracing depth (S := .ofRoots (Rooted program s.heap))
      ⟨program, .inl rfl, .refl _⟩ s (stocked_ofRoots program s)
    rw [h] at hends
    cases hends with
    | error hf _ =>
        obtain ⟨root, hroot, hwithin⟩ := hf.1 node hnode
        rcases hroot with rfl | ⟨d, hd, rfl⟩
        · exact .inl hwithin
        · exact .inr ⟨d, hd, hwithin⟩
  · rw [hnode] at hsettled
    exact (Option.or_eq_some_iff.mp hsettled.symm)

/-- A function whose body asks for a name that is nowhere defined, and a call of it. -/
def strayCall : Node :=
  .source [.define { name := "f", parameters := [], body := [.perform (.name "x")] }, .perform (.call "f" [])]

/-- The name in the body is to blame, and neither the call nor the program around it. -/
theorem error_blames_innermost_visit_strayCall :
    ∃ e t, run (.upTo .off 1) strayCall .initial = .error (.error e) t ∧
      e.node = some (.expr (.name "x")) ∧
      ∃ node, e.node = some node ∧
        (node.Within strayCall ∨ ∃ d, State.initial.heap.Stores d ∧ node.Within (.stmt (.define d))) ∧
        ∃ raised visits, Trailing.run .off 1 strayCall .initial = .error { fault := .error raised, visits } t ∧
          raised.cause = e.cause ∧
          (raised.node = some node ∨ raised.node = none ∧ visits.head? = some node) :=
  ⟨_, _, rfl, rfl, error_blames_innermost_visit .off 1 rfl⟩

end Eval

end ProtoScript
