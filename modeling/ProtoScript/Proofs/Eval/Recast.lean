import ProtoScript.Proofs.Eval.Outcome

/-!
# Evaluation with other trees in its closures

The values of an evaluation hold trees: the definitions of user functions. Only a call looks into them,
and only an error shows one. If every definition in a state is replaced by another one, then each step
that is no call does what it did, up to that replacement.
-/

namespace ProtoScript.Eval

/-- How definitions and the nodes to blame are replaced. -/
structure Recast where
  definition : Definition → Definition
  node : Node → Node

namespace Recast
variable (r : Recast)

/-- The replacement in the body of a function. -/
def body : Body → Body
  | .native native => .native native
  | .closure d scope => .closure (r.definition d) scope

/-- The replacement in a function. -/
def function (f : Function) : Function :=
  { f with body := r.body f.body }

mutual

/-- The replacement in a value. -/
def value : Value → Value
  | .nil => .nil
  | .bool b => .bool b
  | .int n => .int n
  | .decimal d => .decimal d
  | .character text => .character text
  | .string text => .string text
  | .list items => .list (values items)
  | .function f => .function (r.function f)
  | .object o => .object o
  | .foreign => .foreign

/-- The replacement in several values. -/
def values : List Value → List Value
  | [] => []
  | v :: rest => value v :: values rest

end

/-- The replacement in bindings. -/
def table (t : Table String Value) : Table String Value :=
  ⟨t.entries.map fun entry => (entry.1, r.value entry.2)⟩

/-- The replacement in a frame. -/
def frame (f : Frame) : Frame :=
  { f with bindings := r.table f.bindings }

/-- The replacement in a heap. -/
def heap (h : Heap) : Heap :=
  { h with frames := h.frames.map r.frame }

/-- The replacement in a state. -/
def state (s : State) : State :=
  { s with heap := r.heap s.heap }

/-- The replacement in a fault. -/
def fault : Fault → Fault
  | .error e => .error { e with node := e.node.map r.node }
  | .endless => .endless
  | .breakdown b => .breakdown b

/-- The replacement in a completion. -/
def completion (statement : Stmt → Stmt) : Completion → Completion
  | .normal v => .normal (r.value v)
  | .returned v origin => .returned (r.value v) (statement origin)

/-- The replacement in a result. -/
def result {α : Type} (f : α → α) : EStateM.Result Fault State α → EStateM.Result Fault State α
  | .ok a s => .ok (f a) (r.state s)
  | .error e s => .error (r.fault e) (r.state s)

section Values

@[simp] theorem values_eq_map (vs : List Value) : r.values vs = vs.map r.value := by
  induction vs with
  | nil => rfl
  | cons v vs ih => rw [values, ih, List.map_cons]

@[simp] theorem kind_value (v : Value) : (r.value v).kind = v.kind := by
  cases v <;> rfl

@[simp] theorem value_ofLiteral (literal : Literal) :
    r.value (.ofLiteral literal) = .ofLiteral literal := by
  cases literal <;> rfl

mutual

theorem displayWith_value (showObject : Object → Except Fault String) (v : Value) :
    displayWith showObject (r.value v) = displayWith showObject v := by
  cases v with
  | list items =>
      have hall := displayAllWith_values showObject items
      rw [value, displayWith, displayWith, hall]
  | function f => rfl
  | nil | bool | int | decimal | character | string | object | foreign => rfl

theorem displayAllWith_values (showObject : Object → Except Fault String) (vs : List Value) :
    displayAllWith showObject (r.values vs) = displayAllWith showObject vs := by
  cases vs with
  | nil => rfl
  | cons v rest =>
      rw [values, displayAllWith, displayAllWith, displayWith_value showObject v,
        displayAllWith_values showObject rest]

end

theorem displayMember_value (showObject : Object → Except Fault String) (name : String) (v : Value) :
    displayMember showObject name (r.value v) = displayMember showObject name v := by
  have h := r.displayWith_value showObject v
  cases v with
  | list items =>
      rw [value] at h ⊢
      simp only [displayMember, h]
  | nil | bool | int | decimal | character | string | function | object | foreign => rfl

mutual

theorem inspect_value (v : Value) : inspect (r.value v) = inspect v := by
  cases v with
  | list items =>
      have hall := inspectAll_values items
      rw [value, inspect, inspect, hall]
  | nil | bool | int | decimal | character | string | function | object | foreign => rfl

theorem inspectAll_values (vs : List Value) : inspectAll (r.values vs) = inspectAll vs := by
  cases vs with
  | nil => rfl
  | cons v rest =>
      rw [values, inspectAll, inspectAll, inspect_value v, inspectAll_values rest]

end

mutual

theorem equals_value (v w : Value) : (r.value v).equals (r.value w) = v.equals w := by
  cases v with
  | list items =>
      cases w with
      | list others =>
          have hall := equalsAll_values items others
          simp only [value, Value.equals, values_eq_map, List.length_map] at hall ⊢
          rw [hall]
      | nil | bool | int | decimal | character | string | function | object | foreign => rfl
  | nil | bool | int | decimal | character | string | function | object | foreign => cases w <;> rfl

theorem equalsAll_values (vs ws : List Value) :
    Value.equalsAll (r.values vs) (r.values ws) = Value.equalsAll vs ws := by
  cases vs with
  | nil => rfl
  | cons v vs =>
      cases ws with
      | nil => rfl
      | cons w ws =>
          rw [values, values, Value.equalsAll, Value.equalsAll, equals_value v w, equalsAll_values vs ws]

end

end Values

section Heaps
variable (h : Heap)

theorem find_map (name : String) (entries : List (String × Value)) :
    Table.find name (entries.map fun entry => (entry.1, r.value entry.2)) =
      (Table.find name entries).map r.value := by
  induction entries with
  | nil => rfl
  | cons entry rest ih =>
      by_cases hn : entry.1 = name <;> simp [Table.find, hn, ih]

theorem put_map (name : String) (v : Value) (entries : List (String × Value)) :
    (Table.put name v entries).map (fun entry => (entry.1, r.value entry.2)) =
      Table.put name (r.value v) (entries.map fun entry => (entry.1, r.value entry.2)) := by
  induction entries with
  | nil => rfl
  | cons entry rest ih =>
      by_cases hn : entry.1 = name <;> simp [Table.put, hn, ih]

@[simp] theorem size_heap : (r.heap h).size = h.size :=
  Array.size_map

@[simp] theorem parent?_heap (f : FrameId) : (r.heap h).parent? f = h.parent? f := by
  simp only [Heap.parent?, heap, Array.getElem?_map]
  cases h.frames[f]? <;> rfl

@[simp] theorem bindings_heap (f : FrameId) : (r.heap h).bindings f = r.table (h.bindings f) := by
  simp only [Heap.bindings, heap, Array.getElem?_map]
  cases h.frames[f]? <;> rfl

@[simp] theorem own?_heap (f : FrameId) (name : String) :
    (r.heap h).own? f name = (h.own? f name).map r.value := by
  rw [Heap.own?, bindings_heap]
  exact r.find_map name _

@[simp] theorem binds_heap (f : FrameId) (name : String) : (r.heap h).binds f name = h.binds f name := by
  simp [Heap.binds]

theorem chainWithin_heap (room : Nat) (f : FrameId) :
    (r.heap h).chainWithin room f = h.chainWithin room f := by
  induction room generalizing f with
  | zero => rfl
  | succ room ih => simp only [Heap.chainWithin, parent?_heap, ih]

@[simp] theorem chain_heap (f : FrameId) : (r.heap h).chain f = h.chain f := by
  rw [Heap.chain, Heap.chain, size_heap, chainWithin_heap]

@[simp] theorem owner?_heap (f : FrameId) (name : String) :
    (r.heap h).owner? f name = h.owner? f name := by
  simp [Heap.owner?]

@[simp] theorem resolve_heap (f : FrameId) (name : String) :
    (r.heap h).resolve f name = (h.resolve f name).map r.value := by
  simp only [Heap.resolve, chain_heap, own?_heap, List.map_findSome?]
  rfl

@[simp] theorem prototype?_heap (o : Object) : (r.heap h).prototype? o = h.prototype? o := by
  rw [Heap.prototype?, Heap.prototype?, own?_heap]
  cases h.own? o.frame Heap.prototypeName with
  | none => rfl
  | some v => cases v <;> rfl

theorem lookupWithin_heap (name : String) (room : Nat) (o : Object) :
    (r.heap h).lookupWithin name room o = (h.lookupWithin name room o).map r.value := by
  induction room generalizing o with
  | zero => rfl
  | succ room ih =>
      simp only [Heap.lookupWithin, own?_heap, prototype?_heap, ih]
      cases h.own? o.frame name with
      | some v => rfl
      | none => cases h.prototype? o <;> rfl

@[simp] theorem lookup_heap (o : Object) (name : String) :
    (r.heap h).lookup o name = (h.lookup o name).map r.value := by
  rw [Heap.lookup, Heap.lookup, size_heap, lookupWithin_heap]

theorem displayObject_heap (room : Nat) (path : List FrameId) (o : Object) :
    displayObject (r.heap h) room path o = displayObject h room path o := by
  induction room generalizing path o with
  | zero => rfl
  | succ room ih =>
      have hshow : displayObject (r.heap h) room = displayObject h room := by
        funext path o
        exact ih path o
      simp only [displayObject, bindings_heap, hshow, table, List.mapM_map, Function.comp_def,
        displayMember_value]

@[simp] theorem display_heap (v : Value) :
    ProtoScript.display (r.heap h) (r.value v) = ProtoScript.display h v := by
  have hshow : displayObject (r.heap h) = displayObject h := by
    funext room path o
    exact r.displayObject_heap h room path o
  rw [ProtoScript.display, ProtoScript.display, size_heap, hshow, displayWith_value]

theorem heap_bind (f : FrameId) (name : String) (v : Value) :
    r.heap (h.bind f name v) = (r.heap h).bind f name (r.value v) := by
  refine congrArg (Heap.mk · h.functions) ?_
  apply Array.ext_getElem?
  intro i
  simp only [Heap.bind, heap, Array.getElem?_map, Array.getElem?_modify]
  by_cases hi : f = i
  · cases h.frames[i]? with
    | none => simp [hi]
    | some g => simp [hi, frame, table, Table.set, put_map]
  · simp [hi]

theorem heap_allocate (parent : Option FrameId) :
    (r.heap h).allocate parent = ((h.allocate parent).1, r.heap (h.allocate parent).2) := by
  simp [Heap.allocate, heap, frame, table, Heap.size]

theorem heap_addNative (f : FrameId) (name : String) (native : Native) :
    r.heap (h.addNative f name native) = (r.heap h).addNative f name native :=
  r.heap_bind _ f name _

end Heaps

/-- A program starts without closures. -/
theorem state_initial : r.state State.initial = State.initial := by
  have hframes : r.heap { frames := #[{}, {}, {}] } = { frames := #[{}, {}, {}] } := by
    simp [heap, frame, table]
  have hheap : r.heap Heap.initial = Heap.initial := by
    simp only [Heap.initial, heap_bind, heap_addNative, value, hframes]
  rw [State.initial, state, hheap]

/-- Wherever `r` replaces nothing, `p` and `q` do the same. -/
structure Coincide (r p q : Recast) : Prop where
  definition {d : Definition} (h : r.definition d = d) : p.definition d = q.definition d
  node {n : Node} (h : r.node n = n) : p.node n = q.node n

namespace Coincide
variable {r p q : Recast}

theorem function (hc : Coincide r p q) {f : Function} (h : r.function f = f) :
    p.function f = q.function f := by
  obtain ⟨ident, name, body⟩ := f
  cases body with
  | native => rfl
  | closure d scope =>
      simp only [Recast.function, body, Function.mk.injEq, Body.closure.injEq, true_and,
        and_true] at h ⊢
      exact hc.definition h

mutual

theorem value (hc : Coincide r p q) {v : Value} (h : r.value v = v) : p.value v = q.value v := by
  cases v with
  | list items =>
      simp only [Recast.value, Value.list.injEq] at h ⊢
      exact values hc h
  | function f =>
      simp only [Recast.value, Value.function.injEq] at h ⊢
      exact hc.function h
  | nil | bool | int | decimal | character | string | object | foreign => rfl

theorem values (hc : Coincide r p q) {vs : List Value} (h : r.values vs = vs) :
    p.values vs = q.values vs := by
  cases vs with
  | nil => rfl
  | cons v rest =>
      simp only [Recast.values, List.cons.injEq] at h ⊢
      exact ⟨value hc h.1, values hc h.2⟩

end

theorem table (hc : Coincide r p q) {t : Table String Value} (h : r.table t = t) :
    p.table t = q.table t := by
  have hentries : t.entries.map (fun entry => (entry.1, r.value entry.2)) = t.entries.map id := by
    rw [List.map_id]
    exact congrArg Table.entries h
  refine congrArg Table.mk (List.map_congr_left fun entry he => ?_)
  have hv : r.value entry.2 = entry.2 := congrArg Prod.snd (List.map_inj_left.mp hentries entry he)
  rw [hc.value hv]

theorem heap (hc : Coincide r p q) {g : Heap} (h : r.heap g = g) : p.heap g = q.heap g := by
  have hframes : g.frames.map r.frame = g.frames.map id := by
    rw [Array.map_id]
    exact congrArg Heap.frames h
  refine congrArg (Heap.mk · g.functions) (Array.map_congr_left fun frame hf => ?_)
  have hbindings : r.table frame.bindings = frame.bindings :=
    congrArg Frame.bindings (Array.map_inj_left.mp hframes frame hf)
  rw [Recast.frame, Recast.frame, hc.table hbindings]

theorem state (hc : Coincide r p q) {s : State} (h : r.state s = s) : p.state s = q.state s := by
  have hheap : r.heap s.heap = s.heap := congrArg State.heap h
  rw [Recast.state, Recast.state, hc.heap hheap]

theorem fault (hc : Coincide r p q) {e : Fault} (h : r.fault e = e) : p.fault e = q.fault e := by
  cases e with
  | error e =>
      obtain ⟨cause, node⟩ := e
      cases node with
      | none => rfl
      | some node =>
          simp only [Recast.fault, Option.map_some, Fault.error.injEq, EvalError.mk.injEq, true_and,
            Option.some.injEq] at h ⊢
          exact hc.node h
  | endless | breakdown => rfl

theorem result (hc : Coincide r p q) {res : EStateM.Result Fault State Value}
    (h : r.result r.value res = res) : p.result p.value res = q.result q.value res := by
  cases res with
  | ok v s =>
      simp only [Recast.result, EStateM.Result.ok.injEq] at h ⊢
      exact ⟨hc.value h.1, hc.state h.2⟩
  | error e s =>
      simp only [Recast.result, EStateM.Result.error.injEq] at h ⊢
      exact ⟨hc.fault h.1, hc.state h.2⟩

end Coincide

end Recast

end ProtoScript.Eval
