import ProtoScript.Proofs.Eval.Recast
import ProtoScript.Proofs.Value.Faults

/-!
# Steps that mirror each other

One step mirrors another if it does the same in every state in which the definitions were replaced. Most
steps mirror themselves: they move values about, and show or compare them, but never look into the tree
of a function.
-/

namespace ProtoScript.Eval

namespace Recast
variable {r : Recast} {α β : Type} {f : α → α} {g : β → β}

/-- From a recast state, `step'` does what `step` does from the state itself. The replacement in the
values of the step is `f`. -/
def Mirrors (r : Recast) (f : α → α) (step step' : Eval α) : Prop :=
  ∀ s, step' (r.state s) = r.result f (step s)

/-- The fault blames no node, so that nothing is replaced in it. -/
def Keeps (r : Recast) (fault : Fault) : Prop :=
  r.fault fault = fault

theorem keeps_breakdown (b : Breakdown) : r.Keeps (.breakdown b) :=
  rfl

theorem keeps_endless : r.Keeps .endless :=
  rfl

/-- An error takes the replacement of the node that it blames. -/
theorem fault_blamed (node : Node) (fault : Fault) :
    r.fault (blamed node fault) = blamed (r.node node) (r.fault fault) := by
  cases fault with
  | error e =>
      obtain ⟨cause, blamedNode⟩ := e
      cases blamedNode <;> rfl
  | endless | breakdown => rfl

theorem fault_ofError (cause : Cause) (node : Option Node) :
    r.fault (Fault.ofError { cause, node }) = Fault.ofError { cause, node := node.map r.node } := by
  unfold Fault.ofError
  cases cause.message.defect? <;> rfl

namespace Mirrors

theorem pure {a a' : α} (ha : f a = a') : r.Mirrors f (Pure.pure a) (Pure.pure a') := by
  intro s
  rw [← ha]
  rfl

theorem throw {fault fault' : Fault} (hf : r.fault fault = fault') :
    r.Mirrors f (MonadExcept.throw fault) (MonadExcept.throw fault') := by
  intro s
  rw [← hf]
  rfl

theorem raise (cause : Cause) : r.Mirrors f (Eval.raise cause) (Eval.raise cause) :=
  .throw (fault_ofError cause none)

theorem raiseAt (node : Node) (cause : Cause) :
    r.Mirrors f (Eval.raiseAt node cause) (Eval.raiseAt (r.node node) cause) :=
  .throw (fault_ofError cause (some node))

theorem bind {m m' : Eval α} {k k' : α → Eval β} (hm : r.Mirrors f m m')
    (hk : ∀ a, r.Mirrors g (k a) (k' (f a))) : r.Mirrors g (m >>= k) (m' >>= k') := by
  intro s
  rw [bind_apply, bind_apply, hm s]
  cases m s with
  | ok a t => exact hk a t
  | error fault t => rfl

/-- What the present state decides may be decided by the recast one. -/
theorem read {k k' : State → Eval α} (hk : ∀ s, r.Mirrors f (k s) (k' (r.state s))) :
    r.Mirrors f (get >>= k) (get >>= k') :=
  fun s => hk s s

theorem ite {p : Prop} [Decidable p] {m m' n n' : Eval α} (hm : r.Mirrors f m m')
    (hn : r.Mirrors f n n') : r.Mirrors f (if p then m else n) (if p then m' else n') := by
  split
  · exact hm
  · exact hn

theorem discard {m m' : Eval α} (hm : r.Mirrors f m m') :
    r.Mirrors id (Functor.discard m) (Functor.discard m') :=
  .bind hm fun _ => .pure rfl

theorem blame {m m' : Eval α} (node : Node) (hm : r.Mirrors f m m') :
    r.Mirrors f (Eval.blame node m) (Eval.blame (r.node node) m') := by
  intro s
  unfold Eval.blame
  rw [hm s]
  cases m s with
  | ok a t => rfl
  | error fault t => simp only [result, fault_blamed]

theorem within {m m' : Eval α} (frame : FrameId) (hm : r.Mirrors f m m') :
    r.Mirrors f (Eval.within frame m) (Eval.within frame m') := by
  intro s
  have hscope : { r.state s with scope := frame } = r.state { s with scope := frame } := rfl
  unfold Eval.within
  rw [hscope, hm { s with scope := frame }]
  cases m { s with scope := frame } <;> rfl

theorem ofExcept {x x' : Except Fault α} (hx : FailsOnly r.Keeps x)
    (h : x' = x) : r.Mirrors id (Eval.ofExcept x) (Eval.ofExcept x') := by
  rw [h]
  cases x with
  | ok a => exact .pure rfl
  | error fault => exact .throw (hx fault rfl)

end Mirrors

theorem mirrors_kind (v : Value) : r.Mirrors id (kind v) (kind (r.value v)) := by
  have hkeeps : FailsOnly r.Keeps v.kind := kind_failsOnly (keeps_breakdown _) v
  exact .ofExcept hkeeps (r.kind_value v)

theorem mirrors_display (v : Value) : r.Mirrors id (display v) (display (r.value v)) := by
  refine .read fun s => ?_
  have hkeeps : FailsOnly r.Keeps (ProtoScript.display s.heap v) :=
    display_failsOnly (keeps_breakdown _) keeps_endless s.heap v
  exact .ofExcept hkeeps (r.display_heap s.heap v)

theorem mirrors_write (event : Event) : r.Mirrors id (write event) (write event) :=
  fun _ => rfl

theorem mirrors_resolve (name : String) :
    r.Mirrors (Option.map r.value) (resolve name) (resolve name) :=
  .read fun s => .read fun t => .pure (r.resolve_heap s.heap t.scope name).symm

theorem mirrors_allocate (parent : Option FrameId) :
    r.Mirrors id (allocate parent) (allocate parent) := by
  intro s
  have h := r.heap_allocate s.heap parent
  change (EStateM.Result.ok ((r.heap s.heap).allocate parent).1
    { r.state s with heap := ((r.heap s.heap).allocate parent).2 }) = _
  rw [h]
  rfl

theorem mirrors_openFrame : r.Mirrors id openFrame openFrame :=
  .read fun s => mirrors_allocate (some s.scope)

theorem mirrors_createFunction (name : String) (body : Body) :
    r.Mirrors r.function (createFunction name body) (createFunction name (r.body body)) :=
  fun _ => rfl

section Bindings
variable (name : String) (v : Value)

theorem mirrors_bindIn (frame : FrameId) :
    r.Mirrors id (bindIn frame name v) (bindIn frame name (r.value v)) := by
  intro s
  change EStateM.Result.ok () { r.state s with heap := (r.heap s.heap).bind frame name (r.value v) } = _
  rw [← heap_bind]
  rfl

theorem mirrors_defineIn (frame : FrameId) :
    r.Mirrors id (defineIn frame name v) (defineIn frame name (r.value v)) := by
  refine .read fun s => ?_
  have hb : (r.state s).heap.binds frame name = s.heap.binds frame name := r.binds_heap _ _ _
  rw [hb]
  have hbind := r.mirrors_bindIn name v frame
  apply Mirrors.ite
  · exact .bind (f := id) (.raise _) fun _ => hbind
  · exact hbind

theorem mirrors_define : r.Mirrors id (define name v) (define name (r.value v)) :=
  .read fun s => mirrors_defineIn name v s.scope

theorem mirrors_assign : r.Mirrors id (assign name v) (assign name (r.value v)) := by
  refine .read fun s => .read fun t => ?_
  have ho : (r.state s).heap.owner? (r.state t).scope name = s.heap.owner? t.scope name :=
    r.owner?_heap _ _ _
  rw [ho]
  cases s.heap.owner? t.scope name with
  | none => exact .raise _
  | some owner => exact mirrors_bindIn name v owner

end Bindings

section Checks

theorem mirrors_mismatch (kinds : List Kind) (v : Value) :
    r.Mirrors f (mismatch kinds v) (mismatch kinds (r.value v)) :=
  .bind (mirrors_kind v) fun _ => .bind (mirrors_display v) fun _ => .raise _

theorem mirrors_expectKind (kinds : List Kind) (v : Value) :
    r.Mirrors id (expectKind kinds v) (expectKind kinds (r.value v)) := by
  refine .bind (mirrors_kind v) ?_
  intro kind
  exact .ite (.pure rfl) (mirrors_mismatch kinds v)

theorem mirrors_expectBool (v : Value) : r.Mirrors id (expectBool v) (expectBool (r.value v)) := by
  cases v with
  | bool b => exact .pure rfl
  | nil | int | decimal | character | string | list | function | object | foreign =>
      exact mirrors_mismatch _ _

theorem mirrors_expectList (v : Value) :
    r.Mirrors r.values (expectList v) (expectList (r.value v)) := by
  cases v with
  | list items => exact .pure rfl
  | nil | bool | int | decimal | character | string | function | object | foreign =>
      exact mirrors_mismatch _ _

theorem mirrors_expectObject (v : Value) :
    r.Mirrors id (expectObject v) (expectObject (r.value v)) := by
  cases v with
  | object o => exact .pure rfl
  | nil | bool | int | decimal | character | string | list | function | foreign =>
      exact mirrors_mismatch _ _

end Checks

theorem mirrors_displayAll (vs : List Value) :
    r.Mirrors id (vs.mapM display) ((r.values vs).mapM display) := by
  induction vs with
  | nil => exact .pure rfl
  | cons v rest ih =>
      rw [values, List.mapM_cons, List.mapM_cons]
      exact .bind (mirrors_display v) fun _ => .bind ih fun _ => .pure rfl

theorem mirrors_trace (tracing : Tracing) (kind : StepKind) (callee : String) (vs : List Value) :
    r.Mirrors id (trace tracing kind callee vs) (trace tracing kind callee (r.values vs)) := by
  cases tracing with
  | off => exact .pure rfl
  | silent => exact .bind (mirrors_displayAll vs) fun _ => .pure rfl
  | verbose => exact .bind (mirrors_displayAll vs) fun _ => mirrors_write _

section Operators
variable (v w : Value)

theorem relate_value (operator : Operator) :
    relate operator (r.value v) (r.value w) = relate operator v w := by
  cases v <;> cases w <;> rfl

theorem mirrors_compare (operator : Operator) :
    r.Mirrors r.value (compare operator v w) (compare operator (r.value v) (r.value w)) := by
  refine .bind (mirrors_expectKind _ v) fun _ => ?_
  refine .bind (mirrors_kind v) fun left => .bind (mirrors_kind w) fun right => ?_
  have hrelate : r.Mirrors r.value (Pure.pure (.bool (relate operator v w)))
      (Pure.pure (.bool (relate operator (r.value v) (r.value w)))) := by
    rw [relate_value]
    exact .pure rfl
  exact .ite (.bind (f := id) (.raise _) fun _ => hrelate) hrelate

theorem mirrors_numbers (operator : Operator) :
    r.Mirrors id (numbers operator v w) (numbers operator (r.value v) (r.value w)) := by
  refine .bind (mirrors_expectKind _ v) fun _ => ?_
  have hraise : r.Mirrors (id : Numbers → Numbers)
      (do raise (.inapplicable operator (← kind v) (← kind w)))
      (do raise (.inapplicable operator (← kind (r.value v)) (← kind (r.value w)))) :=
    .bind (mirrors_kind v) fun _ => .bind (mirrors_kind w) fun _ => .raise _
  cases v <;> cases w <;> first | exact hraise | exact .pure rfl

theorem mirrors_ofDecimal (result : Except Decimal.Limit Decimal) :
    r.Mirrors r.value (ofDecimal result) (ofDecimal result) := by
  cases result with
  | ok d => exact .pure rfl
  | error limit => exact .throw (keeps_breakdown _)

/-- The values that arithmetic gives are numbers. -/
theorem mirrors_arithmetic (operator : Operator) {apply : Numbers → Eval Value}
    (happly : ∀ operands, r.Mirrors r.value (apply operands) (apply operands)) :
    r.Mirrors r.value (numbers operator v w >>= apply)
      (numbers operator (r.value v) (r.value w) >>= apply) :=
  .bind (mirrors_numbers v w operator) happly

theorem mirrors_isString : r.Mirrors id (isString v) (isString (r.value v)) :=
  .bind (mirrors_kind v) fun _ => .pure rfl

/-- `left + right`, once it is known whether it joins texts. -/
theorem mirrors_addOrJoin (joins : Bool) :
    r.Mirrors r.value
      (if joins then do
          let leftText ← display v
          let rightText ← display w
          return .string (leftText ++ rightText)
        else do
          match ← numbers .add v w with
          | .integers a b => return .int (a + b)
          | .decimals a b => ofDecimal (a.add b))
      (if joins then do
          let leftText ← display (r.value v)
          let rightText ← display (r.value w)
          return .string (leftText ++ rightText)
        else do
          match ← numbers .add (r.value v) (r.value w) with
          | .integers a b => return .int (a + b)
          | .decimals a b => ofDecimal (a.add b)) := by
  apply Mirrors.ite
  · exact .bind (mirrors_display v) fun _ => .bind (mirrors_display w) fun _ => .pure rfl
  · refine mirrors_arithmetic v w .add fun operands => ?_
    cases operands with
    | integers a b => exact .pure rfl
    | decimals a b => exact mirrors_ofDecimal _

theorem mirrors_add : r.Mirrors r.value (add v w) (add (r.value v) (r.value w)) := by
  refine .bind (mirrors_isString v) fun leftString => ?_
  cases leftString with
  | true => exact .bind (f := id) (.pure rfl) fun joins => mirrors_addOrJoin v w joins
  | false => exact .bind (mirrors_isString w) fun joins => mirrors_addOrJoin v w joins

theorem mirrors_divide : r.Mirrors r.value (divide v w) (divide (r.value v) (r.value w)) := by
  refine mirrors_arithmetic v w .divide fun operands => ?_
  cases operands with
  | integers a b =>
      have hkeeps : FailsOnly r.Keeps (displayInt a) := displayInt_failsOnly (keeps_breakdown _) a
      refine .ite (.bind (.ofExcept hkeeps rfl) fun _ => ?_) (.pure rfl)
      exact .bind (f := id) (.raise _) fun _ => .pure rfl
  | decimals a b =>
      exact .ite (.bind (f := id) (.raise _) fun _ => mirrors_ofDecimal _) (mirrors_ofDecimal _)

theorem mirrors_applyOperator (operator : Operator) :
    r.Mirrors r.value (applyOperator operator v w)
      (applyOperator operator (r.value v) (r.value w)) := by
  have hkeeps : FailsOnly r.Keeps (v.equals w) := equals_failsOnly (keeps_breakdown _) v w
  have hequals : r.Mirrors id (ofExcept (v.equals w)) (ofExcept ((r.value v).equals (r.value w))) :=
    .ofExcept hkeeps (r.equals_value v w)
  cases operator with
  | equal | unequal => exact .bind hequals fun _ => .pure rfl
  | less | lessEqual | greater | greaterEqual => exact mirrors_compare v w _
  | add => exact mirrors_add v w
  | subtract | multiply =>
      refine mirrors_arithmetic v w _ fun operands => ?_
      cases operands with
      | integers a b => exact .pure rfl
      | decimals a b => exact mirrors_ofDecimal _
  | divide => exact mirrors_divide v w
  | and | or | unknown => exact .raise _

end Operators

section Natives

/-- A native function counts its arguments before it looks at them. -/
theorem mirrors_arity (name : String) (expected : Nat) (vs : List Value) :
    r.Mirrors f (raise (.arity name expected vs.length))
      (raise (.arity name expected (r.values vs).length)) := by
  rw [values_eq_map, List.length_map]
  exact .raise _

theorem mirrors_onlyArgument (name : String) (vs : List Value) :
    r.Mirrors r.value (onlyArgument name vs) (onlyArgument name (r.values vs)) := by
  cases vs with
  | nil => exact .raise _
  | cons v rest =>
      cases rest with
      | nil => exact .pure rfl
      | cons w rest =>
          exact mirrors_arity name 1 _

theorem mirrors_rangeBound (v : Value) : r.Mirrors id (rangeBound v) (rangeBound (r.value v)) := by
  cases v with
  | int n => exact .pure rfl
  | nil | bool | decimal | character | string | list | function | object | foreign =>
      refine .bind (.discard (mirrors_kind _)) fun _ => ?_
      exact .bind (mirrors_display _) fun _ => .raise _

theorem value_integersFrom (first stop : Int) :
    r.value (.list (integersFrom first stop)) = .list (integersFrom first stop) := by
  simp [value, integersFrom, Function.comp_def]

theorem mirrors_callNative (native : Native) (vs : List Value) :
    r.Mirrors r.value (callNative native vs) (callNative native (r.values vs)) := by
  cases native with
  | debug =>
      refine .bind (mirrors_onlyArgument _ vs) fun v => ?_
      have hkeeps : FailsOnly r.Keeps (inspect v) := inspect_failsOnly (keeps_breakdown _) v
      refine .bind (.ofExcept hkeeps (r.inspect_value v)) fun _ => ?_
      exact .bind (mirrors_write _) fun _ => .pure rfl
  | print =>
      refine .bind (mirrors_onlyArgument _ vs) fun v => .bind (mirrors_display v) fun _ => ?_
      exact .bind (mirrors_write _) fun _ => .pure rfl
  | log =>
      refine .bind (mirrors_onlyArgument _ vs) fun v => .bind (mirrors_display v) fun _ => ?_
      exact .bind (mirrors_write _) fun _ => .pure rfl
  | list | function => exact .pure rfl
  | method => exact .pure (by simp [value])
  | range =>
      rcases vs with _ | ⟨first, _ | ⟨stop, _ | ⟨third, rest⟩⟩⟩
      · exact mirrors_arity "range" 2 _
      · exact mirrors_arity "range" 2 _
      · refine .bind (mirrors_rangeBound first) fun low => ?_
        refine .bind (mirrors_rangeBound stop) fun high => ?_
        have hlist : r.Mirrors r.value (Pure.pure (.list (integersFrom low high)))
            (Pure.pure (.list (integersFrom low high))) := .pure (value_integersFrom low high)
        refine .ite (.bind (mirrors_display first) fun _ => ?_) hlist
        exact .bind (f := id) (.raise _) fun _ => hlist
      · exact mirrors_arity "range" 2 _

end Natives

section Names
variable (name : String)

theorem mirrors_calledFunction :
    r.Mirrors r.function (calledFunction name) (calledFunction name) := by
  refine .bind (mirrors_resolve name) ?_
  intro found
  rcases found with _ | value
  · exact .raise _
  · cases value with
    | function f => exact .pure rfl
    | nil | bool | int | decimal | character | string | list | object | foreign => exact .raise _

theorem mirrors_calledMethod (o : Object) :
    r.Mirrors r.function (calledMethod o name) (calledMethod o name) := by
  refine .read fun s => ?_
  have hlookup : (r.state s).heap.lookup o name = (s.heap.lookup o name).map r.value :=
    r.lookup_heap s.heap o name
  rw [hlookup]
  rcases s.heap.lookup o name with _ | value
  · exact .raise _
  · cases value with
    | function f => exact .pure rfl
    | nil | bool | int | decimal | character | string | list | object | foreign => exact .raise _

theorem mirrors_member (o : Object) :
    r.Mirrors r.value
      (do
        match (← get).heap.lookup o name with
        | some value => return value
        | none => raise (.noProperty o.title name))
      (do
        match (← get).heap.lookup o name with
        | some value => return value
        | none => raise (.noProperty o.title name)) := by
  refine .read fun s => ?_
  have hlookup : (r.state s).heap.lookup o name = (s.heap.lookup o name).map r.value :=
    r.lookup_heap s.heap o name
  rw [hlookup]
  cases s.heap.lookup o name with
  | none => exact .raise _
  | some value => exact .pure rfl

end Names

theorem mirrors_bindParameters (frame : FrameId) (names : List String) (vs : List Value) :
    r.Mirrors id (bindParameters frame (names.zip vs))
      (bindParameters frame (names.zip (r.values vs))) := by
  induction names generalizing vs with
  | nil => exact .pure rfl
  | cons name names ih =>
      cases vs with
      | nil => exact .pure rfl
      | cons v vs => exact .bind (mirrors_defineIn name v frame) fun _ => ih vs

end Recast

end ProtoScript.Eval
