import ProtoScript.Proofs.Eval.Confinement

/-!
# Evaluation depends on what can be reached only

If two heaps agree on what the present frame reaches, then a tree is evaluated alike in both: the value
or the fault is the same, the same lines are written, and the heaps agree again on what was reached, on
what is reached now and on all new frames. A call is alike if the heaps agree on what the function and
its arguments reach, wherever it is made from.
-/

namespace ProtoScript.Eval

/-- Two results that cannot be told apart from the roots. -/
structure Indistinguishable {α : Type} (roots : List FrameId) (s t : State)
    (r r' : EStateM.Result Fault State α) : Prop where
  outcome : outcome r = outcome r'
  output : ∃ events, (finalState r).output = s.output ++ events ∧
    (finalState r').output = t.output ++ events
  heaps : Heap.AgreeFrom roots (finalState r).heap (finalState r').heap
  frames {f : FrameId} (hf : s.heap.Reaches roots f ∨ s.heap.size ≤ f) :
    (finalState r).heap.frames[f]? = (finalState r').heap.frames[f]?

theorem indistinguishable_of_agrees {α : Type} {post : α → Prop} {roots : List FrameId}
    {s t : State} {here : Prop} {step : Eval α} (ha : Heap.AgreeFrom roots s.heap t.heap)
    (hstep : (Comparison.ofRoots roots s t).Agrees here post step)
    (hp : here → s.scope = t.scope ∧ s.scope ∈ roots) :
    Indistinguishable roots s t (step s) (step t) := by
  have hm := hstep s t (Comparison.alike_ofRoots ha)
    fun h => ⟨(hp h).1, Comparison.region_of_mem (hp h).2⟩
  exact {
    outcome := hm.outcome_eq
    output := hm.alike.output
    heaps := hm.alike.heaps.agreeFrom fun _ hr => Comparison.region_of_mem hr
    frames := hm.alike.heaps.frames }

/-- Evaluating a tree depends on what the present frame reaches, and a call on what the function and
its arguments reach, whatever the frame that it is made from. -/
theorem evaluation_noninterference (tracing : Tracing) (depth : Nat) (s t : State) :
    (s.scope = t.scope → Heap.AgreeFrom [s.scope] s.heap t.heap → ∀ node,
      Indistinguishable [s.scope] s t (run (.upTo tracing depth) node s)
        (run (.upTo tracing depth) node t)) ∧
    ∀ function values,
      Heap.AgreeFrom (function.frames ++ Value.framesOfAll values) s.heap t.heap →
      Indistinguishable (function.frames ++ Value.framesOfAll values) s t
        (invoke tracing depth function values s) (invoke tracing depth function values t) := by
  constructor
  · intro hscope ha node
    refine indistinguishable_of_agrees ha (Comparison.agrees_run _ tracing depth node) ?_
    exact fun _ => ⟨hscope, List.mem_singleton.mpr rfl⟩
  · intro function values ha
    exact indistinguishable_of_agrees ha
      (Comparison.agrees_invoke_ofRoots tracing depth function values s t) False.elim

/-- A root frame with `x`, and a frame inside it with a local `y`. -/
def localState (scope : FrameId) (y : Int) : State where
  heap := { frames := #[{ bindings := ⟨[("x", .int 1)]⟩ },
    { parent := some 0, bindings := ⟨[("y", .int y)]⟩ }] }
  scope

/-- `DEF f() DO RETURN x; END`, defined in the root frame. -/
def readX : Function where
  ident := 0
  name := "f"
  body := .closure { name := "f", parameters := [], body := [.ret (some (.name "x"))] } 0

/-- The root frame does not reach the local variable. -/
theorem agreeFrom_localState (scope : FrameId) (y y' : Int) :
    Heap.AgreeFrom [0] (localState scope y).heap (localState scope y').heap where
  size := rfl
  functions := rfl
  frames := by
    intro f hf
    have hc : (localState scope y).heap.Closed (· = 0) := by
      constructor
      · rintro f g rfl hg
        cases hg
      · rintro f entry rfl he
        rw [List.mem_singleton.mp he]
        exact Value.within_int 1
    rw [hf.mem_of_closed hc (by simp)]
    rfl

/-- A program that reads `x`, and a call that reads it from inside the local frame, do not see `y`. -/
theorem evaluation_noninterference_local :
    Indistinguishable [0] (localState 0 2) (localState 0 3)
      (run (.upTo .off 1) (.expr (.name "x")) (localState 0 2))
      (run (.upTo .off 1) (.expr (.name "x")) (localState 0 3)) ∧
    Indistinguishable [0] (localState 1 2) (localState 1 3)
      (invoke .off 1 readX [] (localState 1 2)) (invoke .off 1 readX [] (localState 1 3)) ∧
    outcome (invoke .off 1 readX [] (localState 1 2)) = .ok (.int 1) :=
  ⟨(evaluation_noninterference .off 1 (localState 0 2) (localState 0 3)).1 rfl
      (agreeFrom_localState 0 2 3) _,
    (evaluation_noninterference .off 1 (localState 1 2) (localState 1 3)).2 readX []
      (agreeFrom_localState 1 2 3), rfl⟩

end ProtoScript.Eval
