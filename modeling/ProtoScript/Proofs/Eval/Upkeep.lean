import ProtoScript.Proofs.Eval.Moves
import ProtoScript.Proofs.Eval.Outcome
import ProtoScript.Proofs.Text.Messages
import ProtoScript.Proofs.Tree.RoundTrip
import ProtoScript.Proofs.Value.Equality
import ProtoScript.Proofs.Value.Faults

/-!
# What every step of an evaluation upholds

A step that starts at a sound point leads by moves to another one, and goes back to the frame in which it
started, whether it ends in a value or in a fault. If all programs of the run were read from sources, more
is upheld: every value has a kind, functions and objects have been written in a source, and a fault is one
of those that a source can cause.
-/

namespace ProtoScript
open ProtoScript.Text ProtoScript.Parser

section Written

/-- What a value that is no list must be if all programs were read from sources. -/
def Value.LeafWritten : Value → Prop
  | .function { body := .closure d _, .. } => d.printable = true
  | .object o => o.name.all isIdentifier = true
  | .foreign => False
  | _ => True

/-- The value can come from programs that were read from sources. -/
def Value.Written (value : Value) : Prop :=
  value.All LeafWritten

theorem Value.Written.leaf_kind {value : Value} (h : value.Written) :
    value.All fun leaf => leaf.kind?.isSome = true := by
  refine h.mono fun leaf hleaf => ?_
  cases leaf with
  | foreign => exact hleaf.elim
  | nil | bool | int | decimal | character | string | list | function | object => rfl

/-- A list has a kind, and any other value is its own leaf. -/
theorem Value.Written.exists_kind {value : Value} (h : value.Written) :
    ∃ kind, value.kind = .ok kind := by
  cases value with
  | foreign => exact (h .foreign (by simp [leaves])).elim
  | nil | bool | int | decimal | character | string | list | function | object => exact ⟨_, rfl⟩

/-- The characters of an identifier are no braces. -/
theorem plain_of_isIdentifier {name : String} (h : isIdentifier name = true) : plain name = true := by
  have hpart (c : Char) (hc : Token.isNamePart c = true) : isPlain c = true := by
    refine isPlain_iff.mpr ⟨?_, ?_⟩
    · rintro rfl
      cases hc
    · rintro rfl
      cases hc
  unfold isIdentifier at h
  unfold plain
  split at h
  · cases h
  · next c rest htext =>
      rw [htext, List.all_eq_true]
      obtain ⟨hc, hrest⟩ := Bool.and_eq_true_iff.mp h
      intro d hd
      rcases List.mem_cons.mp hd with rfl | hd
      · exact hpart d (by simp [Token.isNamePart, hc])
      · exact hpart d (List.all_eq_true.mp hrest d hd)

theorem Object.plain_title {o : Object} (h : o.name.all isIdentifier = true) : plain o.title = true := by
  obtain ⟨name, frame⟩ := o
  cases name with
  | none =>
      change plain "anonymous object" = true
      decide
  | some name =>
      have hname : isIdentifier name = true := h
      have hne : name ≠ "" := by
        rintro rfl
        exact absurd hname (by decide)
      have htitle : title { name := some name, frame } = name := by
        simp [title, properName?, Option.filter_some, hne]
      rw [htitle]
      exact plain_of_isIdentifier hname

theorem Value.Written.proper {value : Value} (h : value.Written) : value.Proper := by
  refine h.mono fun leaf hleaf => ?_
  rintro rfl
  exact hleaf

/-- The cause is one that a source can bring about. -/
def Cause.Ordinary : Cause → Prop
  | .unknownOperator _ | .notTarget _ => False
  | cause => cause.Legible

/-- The fault is an error that a source can cause, an endless recursion, an integer that is too long, or a
decimal that cannot be computed. -/
def Fault.Ordinary : Fault → Prop
  | .error e => e.cause.Ordinary
  | .endless => True
  | .breakdown reason => reason = .digitLimit ∨ ∃ limit, reason = .limit limit

theorem Cause.Ordinary.legible {cause : Cause} (h : cause.Ordinary) : cause.Legible := by
  cases cause <;> first | exact h | exact h.elim

theorem Cause.Ordinary.message {cause : Cause} (h : cause.Ordinary) :
    cause.message.defect? = none ∧
      (∀ operator, cause ≠ .unknownOperator operator) ∧ ∀ form, cause ≠ .notTarget form := by
  refine ⟨defect?_message h.legible, ?_, ?_⟩
  · rintro operator rfl
    exact h
  · rintro form rfl
    exact h

theorem Fault.ordinary_digitLimit : (Fault.breakdown .digitLimit).Ordinary :=
  .inl rfl

theorem Fault.ordinary_ofError {e : EvalError} (h : e.cause.Ordinary) : (Fault.ofError e).Ordinary := by
  rw [Fault.ofError_of_legible h.legible]
  exact h

end Written

namespace Point
variable {written : Prop} {p q : Point}

/-- All that a value refers to is there, and programs that were read from sources can have made it. -/
def Holds (written : Prop) (p : Point) (value : Value) : Prop :=
  p.Knows value ∧ (written → value.Written)

/-- A sound point of a run whose programs, if `written` holds, were read from sources. -/
def Good (written : Prop) (p : Point) : Prop :=
  p.Sound ∧ (written → p.heap.AllBound Value.Written)

theorem Holds.later {value : Value} (hv : p.Holds written value) (h : p.Before q) :
    q.Holds written value :=
  ⟨hv.1.later h, hv.2⟩

theorem holds_list {items : List Value} :
    p.Holds written (.list items) ↔ ∀ item ∈ items, p.Holds written item := by
  unfold Holds Knows Value.Written
  rw [Value.all_list, Value.all_list]
  exact ⟨fun h item hi => ⟨h.1 item hi, fun hw => h.2 hw item hi⟩,
    fun h => ⟨fun item hi => (h item hi).1, fun hw item hi => (h item hi).2 hw⟩⟩

theorem holds_leaf {value : Value} (hleaf : value.leaves = [value]) :
    p.Holds written value ↔ p.Has value ∧ (written → value.LeafWritten) := by
  unfold Holds Knows Value.Written
  rw [Value.all_self hleaf, Value.all_self hleaf]

/-- A closure is held if its frame is there, and its definition is written if programs are. -/
theorem holds_closure {ident : Nat} {name : String} {d : Definition} {scope : FrameId} :
    p.Holds written (.function { ident, name, body := .closure d scope }) ↔
      scope < p.heap.size ∧ (written → d.printable = true) := by
  rw [holds_leaf rfl]
  simp [Has, Function.frames, Value.LeafWritten]

theorem holds_object {o : Object} :
    p.Holds written (.object o) ↔ o ∈ p.objects ∧ (written → o.name.all isIdentifier = true) :=
  holds_leaf rfl

/-- The name of an object is a part of the messages about it. -/
theorem Holds.plain_title {o : Object} (ho : p.Holds written (.object o)) (hw : written) :
    plain o.title = true :=
  Object.plain_title ((holds_object.mp ho).2 hw)

/-- Everything that is bound in a frame is held. -/
theorem Good.holds_own {f : FrameId} {name : String} {value : Value} (hp : p.Good written)
    (hv : p.heap.own? f name = some value) : p.Holds written value := by
  have hmem := Table.mem_of_get? hv
  exact ⟨hp.1.binding f _ hmem, fun hw => hp.2 hw f _ hmem⟩

theorem Good.holds_resolve {name : String} {value : Value} (hp : p.Good written) {f : FrameId}
    (hv : p.heap.resolve f name = some value) : p.Holds written value := by
  obtain ⟨g, -, hg⟩ := List.exists_of_findSome?_eq_some hv
  exact hp.holds_own hg

theorem Good.holds_lookup {name : String} {value : Value} (hp : p.Good written) {o : Object}
    (hv : p.heap.lookup o name = some value) : p.Holds written value := by
  unfold Heap.lookup at hv
  generalize p.heap.size = room at hv
  induction room generalizing o with
  | zero => cases hv
  | succ room ih =>
      rw [Heap.lookupWithin] at hv
      split at hv
      · next own hown =>
          cases hv
          exact hp.holds_own hown
      · split at hv
        · exact ih hv
        · cases hv

end Point

namespace Eval
variable {α β : Type} {written : Prop} {p p' q : Point} {post : Point → α → Prop}

/-- How a step ends that started at `p`: at a good point, to which moves lead, and in the same frame. -/
inductive Ends (written : Prop) (post : Point → α → Prop) (p : Point) :
    EStateM.Result Fault State α → Prop
  | ok {a : α} {q : Point} (hpath : p.Path q) (hq : q.Good written) (hscope : q.scope = p.scope)
      (ha : post q a) : Ends written post p (.ok a q.toState)
  | error {fault : Fault} {q : Point} (hpath : p.Path q) (hq : q.Good written)
      (hscope : q.scope = p.scope) (hf : written → fault.Ordinary) :
      Ends written post p (.error fault q.toState)

/-- From `p` on, the step upholds everything, and its value is as `post` says. -/
def Keeps (written : Prop) (p : Point) (post : Point → α → Prop) (step : Eval α) : Prop :=
  ∀ q, p.Before q → q.Good written → Ends written post q (step q.toState)

/-- What was said of a value stays true. -/
def Stable (post : Point → α → Prop) : Prop :=
  ∀ p q a, p.Before q → post p a → post q a

namespace Keeps

theorem pure {a : α} (ha : ∀ q, p.Before q → post q a) : Keeps written p post (Pure.pure a) :=
  fun q hq hgood => .ok (.refl q) hgood rfl (ha q hq)

theorem throw {fault : Fault} (hf : written → fault.Ordinary) :
    Keeps written p post (MonadExcept.throw fault) :=
  fun q _ hgood => .error (.refl q) hgood rfl hf

theorem raise {cause : Cause} (hc : written → cause.Ordinary) :
    Keeps written p post (Eval.raise cause) :=
  .throw fun hw => Fault.ordinary_ofError (hc hw)

theorem raiseAt (node : Node) {cause : Cause} (hc : written → cause.Ordinary) :
    Keeps written p post (Eval.raiseAt node cause) :=
  .throw fun hw => Fault.ordinary_ofError (hc hw)

/-- The next step starts where the one before it ended. -/
theorem bind {mid : Point → α → Prop} {post : Point → β → Prop} {m : Eval α} {k : α → Eval β}
    (hm : Keeps written p mid m)
    (hk : ∀ q a, p.Before q → mid q a → Keeps written q post (k a)) :
    Keeps written p post (m >>= k) := by
  intro q hq hgood
  have hr := hm q hq hgood
  rw [bind_apply]
  generalize m q.toState = r at hr ⊢
  cases hr with
  | error hpath hgood' hscope hf => exact .error hpath hgood' hscope hf
  | @ok a q' hpath hgood' hscope ha =>
      have hr := hk q' a (hq.trans hpath.before) ha q' (.refl q') hgood'
      simp only
      generalize k a q'.toState = r at hr ⊢
      cases hr with
      | ok hpath' hgood'' hscope' hb =>
          exact .ok (hpath.trans hpath') hgood'' (hscope'.trans hscope) hb
      | error hpath' hgood'' hscope' hf =>
          exact .error (hpath.trans hpath') hgood'' (hscope'.trans hscope) hf

theorem blame {m : Eval α} (node : Node) (hm : Keeps written p post m) :
    Keeps written p post (Eval.blame node m) := by
  intro q hq hgood
  have hr := hm q hq hgood
  unfold Eval.blame
  generalize m q.toState = r at hr ⊢
  cases hr with
  | ok hpath hgood' hscope ha => exact .ok hpath hgood' hscope ha
  | @error fault _ hpath hgood' hscope hf =>
      refine .error hpath hgood' hscope fun hw => ?_
      cases fault with
      | error e => exact hf hw
      | endless => exact hf hw
      | breakdown b => exact hf hw

/-- A step in another frame is two moves longer: one there, and one back. -/
theorem within {m : Eval α} {frame : FrameId} (hpost : Stable post) (hf : frame < p.heap.size)
    (hm : Keeps written p post m) : Keeps written p post (Eval.within frame m) := by
  intro q hq hgood
  have hthere : Move q { q with scope := frame } :=
    .enter (Nat.lt_of_lt_of_le hf hq.heap.size)
  have hr : Ends written post { q with scope := frame } (m { q.toState with scope := frame }) :=
    hm _ (hq.trans hthere.before) ⟨hthere.sound hgood.1, hgood.2⟩
  -- The frame to go back to is still there.
  have hkept {r : Point} (hpath : ({ q with scope := frame } : Point).Path r) : q.scope < r.heap.size :=
    Nat.lt_of_lt_of_le hgood.1.scope (hthere.before.trans hpath.before).heap.size
  unfold Eval.within
  generalize m { q.toState with scope := frame } = r at hr ⊢
  cases hr with
  | ok hpath hgood' _ ha =>
      have hback := Move.enter (hkept hpath)
      exact .ok ((Point.Path.of_move hthere).trans (hpath.trans (.of_move hback)))
        ⟨hback.sound hgood'.1, hgood'.2⟩ rfl (hpost _ _ _ hback.before ha)
  | error hpath hgood' _ hf =>
      have hback := Move.enter (hkept hpath)
      exact .error ((Point.Path.of_move hthere).trans (hpath.trans (.of_move hback)))
        ⟨hback.sound hgood'.1, hgood'.2⟩ rfl hf

end Keeps

section Steps
variable {frame : FrameId} {v : Value}

theorem keeps_ofExcept {e : Except Fault α} (he : written → FailsOnly Fault.Ordinary e)
    (hpost : ∀ q a, post q a) : Keeps written p post (ofExcept e) := by
  cases e with
  | ok a => exact .pure fun q _ => hpost q a
  | error fault => exact .throw fun hw => he hw fault rfl

/-- Whatever can be written in a source has a kind. -/
theorem keeps_kind (hv : p.Holds written v) : Keeps written p (fun _ _ => True) (kind v) := by
  refine keeps_ofExcept (fun hw => ?_) fun _ _ => trivial
  obtain ⟨kind, hkind⟩ := (hv.2 hw).exists_kind
  rw [hkind]
  exact .ok kind

/-- Values that can be written in a source can be compared. -/
theorem keeps_equals {left right : Value} (hl : p.Holds written left) (hr : p.Holds written right) :
    Keeps written p (fun _ _ => True) (ofExcept (left.equals right)) := by
  refine keeps_ofExcept (fun hw => ?_) fun _ _ => trivial
  obtain ⟨same, hsame⟩ := Value.exists_equals (hl.2 hw).proper (hr.2 hw).proper
  rw [hsame]
  exact .ok same

theorem keeps_display {post : Point → String → Prop} (v : Value) (hpost : ∀ q text, post q text) :
    Keeps written p post (display v) := by
  intro q hq hgood
  have hstep : Keeps written p post (ofExcept (ProtoScript.display q.heap v)) :=
    keeps_ofExcept (fun _ => display_failsOnly Fault.ordinary_digitLimit trivial q.heap v) hpost
  exact hstep q hq hgood

/-- A step that only reads. -/
theorem keeps_read {step : Eval α} (f : State → α) (hstep : ∀ s, step s = .ok (f s) s)
    (hf : ∀ q, p.Before q → q.Good written → post q (f q.toState)) : Keeps written p post step := by
  intro q hq hgood
  rw [hstep]
  exact .ok (.refl q) hgood rfl (hf q hq hgood)

theorem keeps_scope : Keeps written p (fun q f => f < q.heap.size) (State.scope <$> get) :=
  keeps_read State.scope (fun _ => rfl) fun _ _ hgood => hgood.1.scope

theorem keeps_resolve (name : String) :
    Keeps written p (fun q found => ∀ value ∈ found, q.Holds written value) (resolve name) :=
  keeps_read (fun s => s.heap.resolve s.scope name) (fun _ => rfl)
    fun _ _ hgood _ hv => hgood.holds_resolve hv

theorem keeps_lookup (o : Object) (name : String) :
    Keeps written p (fun q found => ∀ value ∈ found, q.Holds written value)
      (lookup o name) :=
  keeps_read (fun s => s.heap.lookup o name) (fun _ => rfl)
    fun _ _ hgood _ hv => hgood.holds_lookup hv

/-- A step that is one move. -/
theorem keeps_move {step : Eval α} (f : State → α) (next : Point → Point)
    (hstep : ∀ q, step q.toState = .ok (f q.toState) (next q).toState)
    (hscope : ∀ q, (next q).scope = q.scope)
    (hmove : ∀ q, p.Before q → q.Good written → Move q (next q))
    (hwritten : ∀ q, p.Before q → written → q.heap.AllBound Value.Written →
      (next q).heap.AllBound Value.Written)
    (hpost : ∀ q, p.Before q → q.Good written → post (next q) (f q.toState)) :
    Keeps written p post step := by
  intro q hq hgood
  have hm := hmove q hq hgood
  rw [hstep]
  exact .ok (.of_move hm) ⟨hm.sound hgood.1, fun hw => hwritten q hq hw (hgood.2 hw)⟩ (hscope q)
    (hpost q hq hgood)

theorem keeps_write (event : Event) : Keeps written p (fun _ _ => True) (write event) :=
  keeps_move (fun _ => ()) (fun q => { q with output := q.output.push event }) (fun _ => rfl)
    (fun _ => rfl) (fun _ _ _ => .write event) (fun _ _ _ h => h) fun _ _ _ => trivial

theorem keeps_bindIn (hf : frame < p.heap.size) (name : String) (hv : p.Holds written v) :
    Keeps written p (fun _ _ => True) (bindIn frame name v) :=
  keeps_move (fun _ => ()) (fun q => { q with heap := q.heap.bind frame name v }) (fun _ => rfl)
    (fun _ => rfl) (fun _ hq _ => .bind (Nat.lt_of_lt_of_le hf hq.heap.size) name (hv.1.later hq))
    (fun _ _ hw h => h.bind (hv.2 hw) frame name) fun _ _ _ => trivial

/-- The number of a new frame is below the size of the heap that has it. -/
theorem lt_size_allocate (h : Heap) (parent : Option FrameId) : h.size < (h.allocate parent).2.size := by
  rw [Heap.size_allocate]
  exact Nat.lt_succ_self _

theorem keeps_allocate (hf : frame < p.heap.size) :
    Keeps written p (fun q f => f < q.heap.size) (allocate (some frame)) :=
  keeps_move (fun s => s.heap.size) (fun q => { q with heap := (q.heap.allocate (some frame)).2 })
    (fun _ => rfl) (fun _ => rfl) (fun _ hq _ => .openFrame (Nat.lt_of_lt_of_le hf hq.heap.size))
    (fun _ _ _ h => h.allocate _) fun _ _ _ => lt_size_allocate _ _

/-- A frame without a parent is opened for a new object. -/
theorem keeps_createObject {name : Option String} (hn : written → name.all isIdentifier = true) :
    Keeps written p (fun q f => f < q.heap.size ∧ q.Holds written (.object { name, frame := f }))
      (allocate none) :=
  keeps_move (fun s => s.heap.size)
    (fun q => { q with
      heap := (q.heap.allocate none).2
      objects := { name, frame := q.heap.size } :: q.objects })
    (fun _ => rfl) (fun _ => rfl) (fun _ _ _ => .createObject name) (fun _ _ _ h => h.allocate _)
    fun _ _ _ => ⟨lt_size_allocate _ _, Point.holds_object.mpr ⟨List.mem_cons_self, hn⟩⟩

theorem keeps_createFunction (name : String) {body : Body}
    (hb : ∀ ident, p.Holds written (.function { ident, name, body })) :
    Keeps written p (fun q function => q.Holds written (.function function))
      (createFunction name body) :=
  keeps_move (fun s => { ident := s.heap.functions, name, body })
    (fun q => { q with heap := (q.heap.createFunction name body).2 }) (fun _ => rfl) (fun _ => rfl)
    (fun _ _ _ => .createFunction name body) (fun _ _ _ h => h)
    fun _ hq _ => (hb _).later (hq.trans (Move.createFunction name body).before)

theorem keeps_defineIn (hf : frame < p.heap.size) (name : String) (hv : p.Holds written v) :
    Keeps written p (fun _ _ => True) (defineIn frame name v) := by
  intro q hq hgood
  have hbind := keeps_bindIn hf name hv q hq hgood
  have hraise : Keeps written p (fun _ (_ : Unit) => True) (raise (.alreadyDefined name)) :=
    .raise fun _ => trivial
  rw [defineIn_apply, Heap.define]
  cases q.heap.binds frame name with
  | true => exact hraise q hq hgood
  | false => exact hbind

theorem keeps_assign (name : String) (hv : p.Holds written v) :
    Keeps written p (fun _ _ => True) (assign name v) := by
  intro q hq hgood
  have hraise : Keeps written p (fun _ (_ : Unit) => True) (raise (.undefined name)) :=
    .raise fun _ => trivial
  rw [assign_apply, Heap.assign]
  cases ho : q.heap.owner? q.scope name with
  | none => exact hraise q hq hgood
  | some owner =>
      have hbinds : q.heap.binds owner name = true := by
        simpa using List.find?_some ho
      have hlt := Heap.lt_size_of_binds hbinds
      exact keeps_bindIn hlt name (hv.later hq) q (.refl q) hgood

/-- The frame of an object that is held is there. -/
theorem keeps_setMember {o : Object} (ho : p.Holds written (.object o)) (name : String)
    (hv : p.Holds written v) : Keeps written p (fun _ _ => True) (setMember o name v) := by
  intro q hq hgood
  have hmem : o ∈ q.objects := (Point.holds_object.mp (ho.later hq)).1
  exact keeps_bindIn (hgood.1.object hmem).1 name (hv.later hq) q (.refl q) hgood

end Steps

end Eval

end ProtoScript
