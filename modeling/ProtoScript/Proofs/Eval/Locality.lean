import ProtoScript.Proofs.Eval.Comparison
import ProtoScript.Proofs.Eval.Traversal

/-!
# Evaluation stays in the region it starts in

To do the same in two evaluations side by side is a discipline, and it is a regime if both evaluations look
names up in one frame of the region. So whole evaluations do the same. The body of a function is run in a
frame of its own, so a call does the same even if the two evaluations make it from different frames.
-/

namespace ProtoScript.Eval.Comparison
variable {c : Comparison} {here : Prop}

/-- To do the same in both evaluations is a discipline. No text and no node plays a part in it. -/
def discipline (c : Comparison) (here : Prop) : Discipline where
  toStock := .full
  World := Unit
  Before _ _ := True
  value _ v := v.Within c.region
  frame _ := c.region
  Obeys _ post step := c.Agrees here (post ()) step
  refl _ := trivial
  trans _ _ := trivial
  value_later _ hv := hv
  frame_later _ hf := hf
  value_bare {_ v} hv := by
    cases v with
    | nil | bool | int | decimal => exact Value.within_of_frames_eq_nil rfl
    | character | string | list | function | object | foreign => exact hv.elim
  value_text _ := ⟨Value.within_of_frames_eq_nil rfl, Value.within_of_frames_eq_nil rfl⟩
  value_list := Value.within_list
  closure {_ function _ scope} hb hf := by
    obtain ⟨ident, name, body⟩ := function
    cases hb
    exact ⟨trivial, hf scope (List.mem_singleton.mpr rfl)⟩
  title _ := fun _ _ => trivial
  pure ha := .pure (ha () trivial)
  bind hm hk := .bind hm fun a ha => hk () a trivial ha
  blame {_ _ _ n _} _ := .blame n
  within _ hf hm := .within hf hm.placed
  endless := .throw _
  limit _ := .throw _
  raise _ _ := .raise _
  raiseAt _ _ _ := .raiseAt _ _
  noProperty _ _ := .raise _
  noMethod _ _ := .raise _
  unknownOperator _ := .raise _
  notTarget _ _ := .raise _
  kind {_ v} _ := agrees_kind v
  equals _ _ := agrees_ofExcept _ fun _ _ => trivial
  display hv := agrees_display hv fun _ _ _ => trivial
  displayInt _ := agrees_ofExcept _ fun _ _ _ _ => trivial
  inspect _ := agrees_ofExcept _ fun _ _ _ _ => trivial
  write {_ event} _ := agrees_write event
  lookup ho := agrees_lookup (Value.within_object.mp ho)
  allocate hf := agrees_allocate (by simpa using hf) fun _ hf => hf
  createObject _ := agrees_allocate (by simp) fun _ hf => ⟨hf, Value.within_object.mpr hf⟩
  createFunction {_ d _} _ hf := agrees_createFunction d.name fun _ => List.forall_mem_singleton.mpr hf
  defineIn {_ _ name _} hf _ := agrees_defineIn hf name
  setMember {_ _ name _} ho _ := agrees_bindIn (Value.within_object.mp ho) name

/-- In one frame of the region, to do the same is a regime. -/
def regime (c : Comparison) : Regime where
  toDiscipline := c.discipline True
  scope := agrees_scope
  resolve := agrees_resolve
  assign {_ name _} _ := agrees_assign name

theorem agrees_run (c : Comparison) (tracing : Tracing) (depth : Nat) (node : Node) :
    c.Agrees True (Value.Within c.region) (run (.upTo tracing depth) node) :=
  c.regime.obeys_run (w := ()) tracing depth trivial

theorem agrees_runBody (tracing : Tracing) (depth : Nat) (d : Definition) {scope : FrameId}
    (hscope : c.region scope) {values : List Value} (hvs : ∀ v ∈ values, v.Within c.region) :
    c.Agrees here (Value.Within c.region) ((Context.upTo tracing depth).runBody d scope values) := by
  apply Agrees.bind ((c.discipline here).allocate (w := ()) hscope)
  intro frame hframe
  have hparameters : ∀ pair ∈ d.parameters.zip values,
      (c.discipline here).Spells pair.1 ∧ pair.2.Within c.region :=
    fun pair hp => ⟨fun _ _ => trivial, hvs pair.2 (List.of_mem_zip hp).2⟩
  apply Agrees.bind (Discipline.obeys_bindParameters (D := c.discipline here) (w := ()) hframe hparameters)
  intro _ _
  have hblock := c.regime.obeys_execBlock (w := ()) (c.regime.serves_upTo tracing depth)
    Discipline.value_nil d.body fun _ _ => trivial
  apply Agrees.bind (.within hframe hblock)
  intro completion hc
  cases completion with
  | normal value => exact .pure Value.within_nil
  | returned value origin => exact .pure hc.1

/-- A call depends on the function and its arguments, but not on where it is made from. -/
theorem agrees_invoke (tracing : Tracing) (depth : Nat) {function : Function} {values : List Value}
    (hf : (Value.function function).Within c.region) (hvs : ∀ v ∈ values, v.Within c.region) :
    c.Agrees here (Value.Within c.region) (invoke tracing depth function values) := by
  have hnative (native : Native) : c.Agrees here (Value.Within c.region) (callNative native values) :=
    Discipline.obeys_callNative (D := c.discipline here) (w := ()) native hvs
  obtain ⟨ident, name, body⟩ := function
  cases body with
  | native native => cases depth <;> exact hnative native
  | closure d scope =>
      cases depth with
      | zero => exact .throw _
      | succ depth =>
          have hscope : c.region scope := hf scope (List.mem_singleton.mpr rfl)
          have hbody : c.Agrees here (Value.Within c.region)
              ((Context.upTo tracing depth).runBody d scope values) :=
            agrees_runBody tracing depth d hscope hvs
          rw [invoke]
          split
          · exact .bind (.raiseAt _ _) fun _ (_ : True) => hbody
          · exact hbody

/-- A call, compared on what the function and its arguments reach. -/
theorem agrees_invoke_ofRoots (tracing : Tracing) (depth : Nat) (function : Function)
    (values : List Value) (s t : State) :
    let c := ofRoots (function.frames ++ Value.framesOfAll values) s t
    c.Agrees False (Value.Within c.region) (invoke tracing depth function values) := by
  apply agrees_invoke
  · intro f hf
    exact region_of_mem (List.mem_append_left _ hf)
  · intro v hv f hf
    apply region_of_mem
    exact List.mem_append_right _ (Value.mem_framesOfAll.mpr ⟨v, hv, hf⟩)

end ProtoScript.Eval.Comparison
