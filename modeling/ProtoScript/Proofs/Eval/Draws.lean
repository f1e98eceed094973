import ProtoScript.Proofs.Eval.Traversal

/-!
# Steps that draw on a stock

A state is stocked if its bindings and the lines it wrote are made of the stock. From a stocked state every
step leads to a stocked one, and gives or fails with something that is made of the stock. This is a
regime, so it is true of whole runs.
-/

namespace ProtoScript
open ProtoScript.Text ProtoScript.Text.Alphabet

namespace Stock
open Eval
variable {α β : Type} {S : Stock} {post : α → Prop} {v : Value}

/-- The state is made of the stock. -/
structure Stocked (S : Stock) (s : State) : Prop where
  heap : S.Supplies s.heap
  output : ∀ event ∈ s.output, S.Writes event

/-- The fault is made of the stock. -/
def Admits (S : Stock) : Fault → Prop
  | .error e => (∀ node ∈ e.node, S.node node) ∧ S.SpellsMessage e.cause.message
  | .endless => True
  | .breakdown reason => S.Spells reason.title ∧ S.Spells reason.text

theorem admits_ofError {e : EvalError} (hn : ∀ node ∈ e.node, S.node node)
    (hc : ∀ word ∈ e.cause.words, S.Spells word) : S.Admits (.ofError e) := by
  have hmessage := Cause.spellsMessage hc
  unfold Fault.ofError
  split
  · exact ⟨hn, hmessage⟩
  · next defect hdefect =>
      refine ⟨?_, hmessage.defect hdefect⟩
      cases defect <;> exact spells_word (by decide)

theorem admits_notAValue : S.Admits (.breakdown .notAValue) :=
  ⟨spells_word (by decide), spells_word (by decide)⟩

theorem admits_digitLimit : S.Admits (.breakdown .digitLimit) :=
  ⟨spells_word (by decide), (spells_word (by decide)).append (spells_word (by decide))⟩

theorem admits_limit (limit : Decimal.Limit) : S.Admits (.breakdown (.limit limit)) := by
  cases limit <;> exact ⟨spells_word (by decide), spells_word (by decide)⟩

/-- How a step ends that draws on the stock. -/
inductive Ends (S : Stock) (post : α → Prop) : EStateM.Result Fault State α → Prop
  | ok {a : α} {t : State} (ha : post a) (ht : S.Stocked t) : Ends S post (.ok a t)
  | error {fault : Fault} {t : State} (hf : S.Admits fault) (ht : S.Stocked t) : Ends S post (.error fault t)

/-- From a stocked state on, the step draws on the stock, and its value is as `post` says. -/
def Draws (S : Stock) (post : α → Prop) (step : Eval α) : Prop :=
  ∀ s, S.Stocked s → S.Ends post (step s)

namespace Draws

theorem pure {a : α} (ha : post a) : S.Draws post (Pure.pure a) :=
  fun _ hs => .ok ha hs

theorem throw {fault : Fault} (hf : S.Admits fault) : S.Draws post (MonadExcept.throw fault) :=
  fun _ hs => .error hf hs

theorem raise {cause : Cause} (hc : ∀ word ∈ cause.words, S.Spells word) :
    S.Draws post (Eval.raise cause) :=
  .throw (admits_ofError (by simp) hc)

theorem raiseAt {node : Node} (hn : S.node node) {cause : Cause}
    (hc : ∀ word ∈ cause.words, S.Spells word) : S.Draws post (Eval.raiseAt node cause) :=
  .throw (admits_ofError (by simpa using hn) hc)

theorem bind {mid : α → Prop} {post : β → Prop} {m : Eval α} {k : α → Eval β} (hm : S.Draws mid m)
    (hk : ∀ a, mid a → S.Draws post (k a)) : S.Draws post (m >>= k) := by
  intro s hs
  have hr := hm s hs
  rw [bind_apply]
  generalize m s = r at hr ⊢
  cases hr with
  | ok ha ht => exact hk _ ha _ ht
  | error hf ht => exact .error hf ht

/-- The node that is blamed comes from the stock. -/
theorem blame {m : Eval α} {node : Node} (hn : S.node node) (hm : S.Draws post m) :
    S.Draws post (Eval.blame node m) := by
  intro s hs
  have hr := hm s hs
  unfold Eval.blame
  generalize m s = r at hr ⊢
  cases hr with
  | ok ha ht => exact .ok ha ht
  | @error fault _ hf ht =>
      refine .error ?_ ht
      cases fault with
      | error e =>
          refine ⟨fun blamed hb => ?_, hf.2⟩
          cases hnode : e.node with
          | none =>
              have hblamed : node = blamed := by simpa [EvalError.orBlame, hnode] using hb
              exact hblamed ▸ hn
          | some kept =>
              have hblamed : kept = blamed := by simpa [EvalError.orBlame, hnode] using hb
              exact hf.1 blamed (hblamed ▸ hnode)
      | endless => exact hf
      | breakdown reason => exact hf

theorem within {m : Eval α} (hm : S.Draws post m) (frame : FrameId) :
    S.Draws post (Eval.within frame m) := by
  intro s hs
  have hr := hm { s with scope := frame } ⟨hs.heap, hs.output⟩
  unfold Eval.within
  generalize m { s with scope := frame } = r at hr ⊢
  cases hr with
  | ok ha ht => exact .ok ha ⟨ht.heap, ht.output⟩
  | error hf ht => exact .error hf ⟨ht.heap, ht.output⟩

end Draws

section Steps
variable {name : String}

theorem draws_ofExcept {e : Except Fault α} (hf : FailsOnly S.Admits e) (hg : GivesOnly post e) :
    S.Draws post (Eval.ofExcept e) := by
  cases e with
  | ok a => exact .pure (hg a rfl)
  | error fault => exact .throw (hf fault rfl)

theorem draws_kind (v : Value) : S.Draws (fun _ => True) (kind v) :=
  draws_ofExcept (kind_failsOnly admits_notAValue v) fun _ _ => trivial

theorem draws_display (hv : S.Holds v) : S.Draws S.Spells (Eval.display v) := by
  intro s hs
  exact draws_ofExcept (display_failsOnly admits_digitLimit trivial s.heap v) (gives_display hs.heap hv) s hs

theorem draws_displayInt (n : Int) : S.Draws S.Spells (Eval.ofExcept (displayInt n)) :=
  draws_ofExcept (displayInt_failsOnly admits_digitLimit n) (gives_displayInt n)

theorem draws_inspect (hv : S.Holds v) : S.Draws S.Spells (Eval.ofExcept (inspect v)) :=
  draws_ofExcept (inspect_failsOnly admits_digitLimit v) (gives_inspect v hv)

/-- A step that only reads. -/
theorem draws_read {step : Eval α} (f : State → α) (hstep : ∀ s, step s = .ok (f s) s)
    (hf : ∀ s, S.Stocked s → post (f s)) : S.Draws post step := by
  intro s hs
  rw [hstep]
  exact .ok (hf s hs) hs

theorem draws_scope : S.Draws (fun _ => True) (State.scope <$> get : Eval FrameId) :=
  draws_read State.scope (fun _ => rfl) fun _ _ => trivial

theorem draws_resolve (name : String) :
    S.Draws (fun found => ∀ value ∈ found, S.Holds value) (Eval.resolve name) :=
  draws_read (fun s => s.heap.resolve s.scope name) (fun _ => rfl) fun _ hs _ hv => hs.heap.resolve hv

theorem draws_lookup (o : Object) (name : String) :
    S.Draws (fun found => ∀ value ∈ found, S.Holds value) (lookup o name) :=
  draws_read (fun s => s.heap.lookup o name) (fun _ => rfl) fun _ hs _ hv => hs.heap.lookup hv

theorem draws_write {event : Event} (he : S.Writes event) : S.Draws (fun _ => True) (write event) := by
  intro s hs
  refine .ok trivial ⟨hs.heap, fun written hw => ?_⟩
  rcases Array.mem_push.mp hw with hw | rfl
  · exact hs.output written hw
  · exact he

/-- A step that changes the heap alone. -/
theorem draws_heap {step : Eval α} (f : State → α) (next : Heap → Heap)
    (hstep : ∀ s, step s = .ok (f s) { s with heap := next s.heap })
    (hnext : ∀ h, S.Supplies h → S.Supplies (next h)) (hpost : ∀ s, post (f s)) : S.Draws post step := by
  intro s hs
  rw [hstep]
  exact .ok (hpost s) ⟨hnext s.heap hs.heap, hs.output⟩

theorem draws_bindIn (frame : FrameId) (hn : S.Spells name) (hv : S.Holds v) :
    S.Draws (fun _ => True) (bindIn frame name v) :=
  draws_heap (fun _ => ()) (·.bind frame name v) (fun _ => rfl) (fun _ hs => hs.bind hn hv frame)
    fun _ => trivial

theorem draws_allocate {post : FrameId → Prop} (parent : Option FrameId) (hpost : ∀ frame, post frame) :
    S.Draws post (allocate parent) :=
  draws_heap (fun s => s.heap.size) (fun h => (h.allocate parent).2) (fun _ => rfl)
    (fun _ hs => hs.allocate parent) fun _ => hpost _

theorem draws_createFunction {body : Body}
    (hf : ∀ ident, S.Holds (.function { ident, name, body })) :
    S.Draws (fun function => S.Holds (.function function)) (createFunction name body) :=
  draws_heap (fun s => { ident := s.heap.functions, name, body }) (fun h => (h.createFunction name body).2)
    (fun _ => rfl) (fun _ hs => hs) fun _ => hf _

theorem draws_defineIn (frame : FrameId) (hn : S.Spells name) (hv : S.Holds v) :
    S.Draws (fun _ => True) (defineIn frame name v) := by
  intro s hs
  have hraise : S.Draws (fun _ : Unit => True) (raise (.alreadyDefined name)) :=
    .raise (by simpa [Cause.words] using hn)
  rw [defineIn_apply, Heap.define]
  cases s.heap.binds frame name with
  | true => exact hraise s hs
  | false => exact draws_bindIn frame hn hv s hs

theorem draws_assign (hn : S.Spells name) (hv : S.Holds v) : S.Draws (fun _ => True) (assign name v) := by
  intro s hs
  have hraise : S.Draws (fun _ : Unit => True) (raise (.undefined name)) :=
    .raise (by simpa [Cause.words] using hn)
  rw [assign_apply, Heap.assign]
  cases s.heap.owner? s.scope name with
  | none => exact hraise s hs
  | some owner => exact draws_bindIn owner hn hv s hs

end Steps

/-- To draw on a stock is a regime. Neither frames nor the course of the run matter to it. -/
def regime (S : Stock) : Regime where
  toStock := S
  World := Unit
  Before _ _ := True
  value _ := S.Holds
  frame _ _ := True
  Obeys _ post step := S.Draws (post ()) step
  refl _ := trivial
  trans _ _ := trivial
  value_later _ hv := hv
  frame_later _ hf := hf
  value_bare {_ v} hv := by
    cases v with
    | nil | bool | int | decimal => exact (holds_leaf rfl).mpr trivial
    | character | string | list | function | object | foreign => exact hv.elim
  value_text ht := ⟨(holds_leaf rfl).mpr ht, (holds_leaf rfl).mpr ht⟩
  value_list := holds_list
  closure hb hf := ⟨((holds_leaf rfl).mp hf).2 _ _ hb, trivial⟩
  title := spells_title
  pure ha := .pure (ha () trivial)
  bind hm hk := .bind hm fun a ha => hk () a trivial ha
  blame := Draws.blame
  within {_ _ _ frame _} _ _ hm := hm.within frame
  endless := .throw trivial
  limit reason := .throw (admits_limit reason)
  raise _ := .raise
  raiseAt hn _ := .raiseAt hn
  noProperty ho hn := .raise (by simpa [Cause.words] using ⟨spells_title ho, hn⟩)
  noMethod ho hn := .raise (by simpa [Cause.words] using ⟨spells_title ho, hn⟩)
  unknownOperator hn := .raise (by simpa [Cause.words] using S.word hn List.mem_cons_self)
  notTarget {_ _ _ target _} _ _ := by
    have hform : S.Spells target.form := by cases target <;> exact spells_word (by decide)
    exact .raise (by simpa [Cause.words] using hform)
  kind {_ v} _ := draws_kind v
  equals {_ left right} _ _ :=
    draws_ofExcept (equals_failsOnly admits_notAValue left right) fun _ _ => trivial
  display := draws_display
  displayInt := draws_displayInt
  inspect := draws_inspect
  write := draws_write
  scope := draws_scope
  resolve := draws_resolve
  lookup {_ o} _ := draws_lookup o
  allocate {_ frame} _ := draws_allocate (some frame) fun _ => trivial
  createObject hn := draws_allocate none fun _ =>
    ⟨trivial, holds_object.mpr fun _ hw => S.word hn (Option.mem_toList.mpr hw)⟩
  createFunction hd _ :=
    draws_createFunction fun ident => holds_closure.mpr ⟨S.word hd List.mem_cons_self, hd⟩
  defineIn {_ frame _ _} _ := draws_defineIn frame
  assign := draws_assign
  setMember {_ o _ _} _ := draws_bindIn o.frame

/-- A run draws on any stock that has its program. -/
theorem draws_run (tracing : Tracing) (depth : Nat) {program : Node} (hp : S.node program) :
    S.Draws S.Holds (run (.upTo tracing depth) program) :=
  S.regime.obeys_run (w := ()) tracing depth hp

end Stock

end ProtoScript
