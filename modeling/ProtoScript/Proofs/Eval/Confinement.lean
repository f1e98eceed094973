import ProtoScript.Proofs.Eval.Locality

/-!
# Effects are confined to what can be reached

An evaluation changes no existing frame that the frame it starts in cannot reach, however it ends, and
its value reaches old frames only if they could be reached before. A call is confined in the same way
to what the function and its arguments reach. The members of an object literal start from an empty
frame without a parent; so the literal changes no existing frame, but for the binding of its own name,
and later calls of its methods get hold of existing frames only through what they are given.
-/

namespace ProtoScript.Eval

/-- The result keeps to what the roots reach: old frames beyond that are as before, and the value, if
there is one, reaches no old frame beyond that. -/
structure Confined {α : Type} (valueOf : α → Value) (roots : List FrameId) (s : State)
    (r : EStateM.Result Fault State α) : Prop where
  kept {f : FrameId} (hf : f < s.heap.size) (hn : ¬s.heap.Reaches roots f) :
    (finalState r).heap.frames[f]? = s.heap.frames[f]?
  value {a : α} {f : FrameId} (hr : outcome r = .ok a)
    (hf : (finalState r).heap.Reaches (valueOf a).frames f) :
    s.heap.Reaches roots f ∨ s.heap.size ≤ f

theorem confined_of_agrees {α : Type} {valueOf : α → Value} {roots : List FrameId} {s : State}
    {here : Prop} {post : α → Prop} {step : Eval α}
    (hstep : (Comparison.ofRoots roots s s).Agrees here post step)
    (hpost : ∀ a, post a → (valueOf a).Within (s.heap.regionOf roots))
    (hp : here → s.scope ∈ roots) : Confined valueOf roots s (step s) := by
  have hm := hstep s s (Comparison.alike_ofRoots ⟨rfl, rfl, fun _ => rfl⟩)
    fun h => ⟨rfl, Comparison.region_of_mem (hp h)⟩
  constructor
  · intro f hf hn
    refine hm.alike.keptLeft ?_
    rintro (h | h)
    · exact hn h
    · exact absurd hf (Nat.not_lt.mpr h)
  · intro a f hr hf
    exact hf.mem_of_closed hm.alike.heaps.closed (hpost a (hm.holds hr))

theorem confined_invoke (tracing : Tracing) (depth : Nat) (s : State) (function : Function)
    (values : List Value) :
    Confined id (function.frames ++ Value.framesOfAll values) s
      (invoke tracing depth function values s) :=
  confined_of_agrees (Comparison.agrees_invoke_ofRoots tracing depth function values s s)
    (fun _ hv => hv) False.elim

theorem confined_execStmt (tracing : Tracing) (depth : Nat) (s : State) (statement : Stmt) :
    Confined Completion.value [s.scope] s (execStmt (.upTo tracing depth) statement s) := by
  let regime := (Comparison.ofRoots [s.scope] s s).regime
  have hstep := Regime.obeys_execStmt (w := ()) (regime.serves_upTo tracing depth) statement trivial
  refine confined_of_agrees hstep ?_ fun _ => List.mem_singleton.mpr rfl
  intro completion hc
  cases completion with
  | normal value => exact hc
  | returned value origin => exact hc.1

/-! ### Object literals -/

/-- The state with an empty frame for a new object. -/
def withObjectFrame (s : State) : State :=
  { s with heap := (s.heap.allocate none).2 }

theorem frames_withObjectFrame {s : State} {f : FrameId} (hf : f < s.heap.size) :
    (withObjectFrame s).heap.frames[f]? = s.heap.frames[f]? := by
  rw [withObjectFrame, Heap.frames_allocate, if_neg (Nat.ne_of_lt hf)]

/-- From the frame of a new object nothing old can be reached. -/
theorem closed_withObjectFrame (s : State) :
    (withObjectFrame s).heap.Closed (s.heap.size ≤ ·) := by
  have hframe {f : FrameId} (hf : s.heap.size ≤ f) :
      ((withObjectFrame s).heap.frames[f]?.getD {}) = {} := by
    rw [withObjectFrame, Heap.frames_allocate, Heap.frames_eq_none hf]
    split <;> rfl
  constructor
  · intro f g hf hg
    rw [Heap.parent?] at hg
    obtain ⟨frame, hsome, hparent⟩ := Option.bind_eq_some_iff.mp hg
    have hempty := hframe hf
    rw [hsome] at hempty
    cases hempty
    cases hparent
  · intro f entry hf he
    rw [Heap.bindings, hframe hf] at he
    cases he

/-- The members of a new object are compared on the frames that are as new as the object. -/
def ofObject (s : State) : Comparison where
  left := withObjectFrame s
  right := withObjectFrame s
  region := (s.heap.size ≤ ·)
  fresh := by
    intro f hf
    rw [withObjectFrame, Heap.size_allocate] at hf
    exact Nat.le_of_succ_le hf

theorem alike_ofObject (s : State) :
    (ofObject s).Alike (withObjectFrame s) (withObjectFrame s) where
  heaps := ⟨rfl, rfl, closed_withObjectFrame s, fun _ => rfl⟩
  grown := Nat.le_refl _
  keptLeft _ := rfl
  keptRight _ := rfl
  output := ⟨#[], by simp [ofObject]⟩

/-- The steps that fill the frame of an object. -/
def fillObject (cx : Context) (frame : FrameId) (fields : List Declaration)
    (methods : List Definition) : Eval Unit :=
  within frame do
    declareAll cx fields
    defineFunctions methods

theorem matched_fillObject (tracing : Tracing) (depth : Nat) (s : State) (fields : List Declaration)
    (methods : List Definition) :
    (ofObject s).Matched (fun _ => True) (withObjectFrame s) (withObjectFrame s)
      (fillObject (.upTo tracing depth) s.heap.size fields methods (withObjectFrame s))
      (fillObject (.upTo tracing depth) s.heap.size fields methods (withObjectFrame s)) := by
  have hcx := (ofObject s).regime.serves_upTo tracing depth
  have hmembers : (ofObject s).Agrees True (fun _ => True) (do
      declareAll (.upTo tracing depth) fields
      defineFunctions methods) :=
    .bind (Regime.obeys_declareAll (w := ()) hcx fields fun _ _ => trivial) fun _ _ =>
      Regime.obeys_defineFunctions (D := (ofObject s).regime) (w := ()) fun _ _ => trivial
  have hfill : (ofObject s).Agrees False (fun _ => True)
      (fillObject (.upTo tracing depth) s.heap.size fields methods) :=
    .within (Nat.le_refl _) hmembers
  exact hfill _ _ (alike_ofObject s) False.elim

/-- Binds the name of an object in the present frame, if it has one. -/
def nameObject (o : Object) : Eval Value := do
  if let some name := o.name then
    define name (.object o)
  return .object o

theorem nameObject_cases (o : Object) (s : State) :
    (∃ fault, nameObject o s = .error fault s) ∨ nameObject o s = .ok (.object o) s ∨
      ∃ name, o.name = some name ∧ nameObject o s =
        .ok (.object o) { s with heap := s.heap.bind s.scope name (.object o) } := by
  obtain ⟨name, frame⟩ := o
  cases name with
  | none => exact Or.inr (Or.inl rfl)
  | some name =>
      have happly : nameObject { name := some name, frame } s =
          (defineIn s.scope name (.object { name := some name, frame }) >>= fun _ =>
            return .object { name := some name, frame }) s := rfl
      have hdefine := defineIn_apply s.scope name (.object { name := some name, frame }) s
      rw [Heap.define] at hdefine
      rw [happly]
      cases hb : s.heap.binds s.scope name with
      | true =>
          rw [if_pos hb] at hdefine
          exact Or.inl ⟨_, by rw [bind_apply, hdefine]⟩
      | false =>
          rw [if_neg (by simp [hb])] at hdefine
          exact Or.inr (Or.inr ⟨name, rfl, by rw [bind_apply, hdefine]; rfl⟩)

/-- An object literal makes a frame, fills it, and binds its name. -/
theorem evalExpr_object_apply (cx : Context) (name : Option String) (fields : List Declaration)
    (methods : List Definition) (s : State) :
    evalExpr cx (.object name fields methods) s =
      blame (.expr (.object name fields methods))
        (fillObject cx s.heap.size fields methods >>= fun _ =>
          nameObject { name, frame := s.heap.size }) (withObjectFrame s) := by
  rw [evalExpr]
  rfl

/-- What an object literal may do. It changes no existing frame, but for the binding of its own name
in the present one; the new object reaches new frames only; and its methods change existing frames
only if these are reached from the values that they are called with. -/
structure Secluded (tracing : Tracing) (depth : Nat) (name : Option String) (s : State)
    (r : EStateM.Result Fault State Value) : Prop where
  kept {f : FrameId} (hf : f < s.heap.size) :
    (finalState r).heap.frames[f]? = s.heap.frames[f]? ∨
      f = s.scope ∧ ∃ n o, name = some n ∧ outcome r = .ok (.object o) ∧
        (finalState r).heap.frames[f]? = (s.heap.bind f n (.object o)).frames[f]?
  value {v : Value} (hv : outcome r = .ok v) :
    ∃ o, v = .object o ∧ ∀ f, (finalState r).heap.Reaches [o.frame] f → s.heap.size ≤ f
  method {o : Object} {m : String} {function : Function} {values : List Value} {f : FrameId}
    (ho : outcome r = .ok (.object o))
    (hm : (finalState r).heap.lookup o m = some (.function function)) (hf : f < s.heap.size)
    (hn : ¬(finalState r).heap.Reaches (Value.framesOfAll values) f) :
    (finalState (invoke tracing depth function (.object o :: values) (finalState r))).heap.frames[f]? =
      (finalState r).heap.frames[f]?

/-- The first two properties of an object literal give the third, as its methods belong to it. -/
theorem unchanged_of_method {tracing : Tracing} {depth n : Nat} {s : State} {o : Object}
    {m : String} {function : Function} {values : List Value} {f : FrameId}
    (hc : s.heap.Closed (n ≤ ·)) (ho : n ≤ o.frame)
    (hm : s.heap.lookup o m = some (.function function)) (hsize : n ≤ s.heap.size) (hf : f < n)
    (hn : ¬s.heap.Reaches (Value.framesOfAll values) f) :
    (finalState (invoke tracing depth function (.object o :: values) s)).heap.frames[f]? =
      s.heap.frames[f]? := by
  have hfunction : (Value.function function).Within (n ≤ ·) := hc.lookupWithin _ ho hm
  refine (confined_invoke tracing depth s function _).kept (Nat.lt_of_lt_of_le hf hsize) ?_
  intro hreach
  have hsplit : s.heap.Reaches (function.frames ++ [o.frame]) f ∨
      s.heap.Reaches (Value.framesOfAll values) f := by
    rw [← Heap.reaches_append]
    simpa [Value.framesOfAll, Value.frames] using hreach
  rcases hsplit with h | h
  · have hold : n ≤ f := by
      refine h.mem_of_closed hc ?_
      intro root hroot
      rcases List.mem_append.mp hroot with hroot | hroot
      · exact hfunction root hroot
      · rw [List.mem_singleton.mp hroot]
        exact ho
    exact Nat.not_le.mpr hf hold
  · exact hn h

section Object
variable {tracing : Tracing} {depth : Nat} {name : Option String} {s t : State}

theorem Secluded.error {fault : Fault}
    (hkept : ∀ f < s.heap.size, t.heap.frames[f]? = s.heap.frames[f]?) :
    Secluded tracing depth name s (.error fault t) :=
  ⟨fun hf => Or.inl (hkept _ hf), nofun, nofun⟩

theorem Secluded.ok (hclosed : t.heap.Closed (s.heap.size ≤ ·)) (hsize : s.heap.size ≤ t.heap.size)
    (hkept : ∀ f < s.heap.size, t.heap.frames[f]? = s.heap.frames[f]? ∨
      f = s.scope ∧ ∃ n, name = some n ∧ t.heap.frames[f]? =
        (s.heap.bind f n (.object { name, frame := s.heap.size })).frames[f]?) :
    Secluded tracing depth name s (.ok (.object { name, frame := s.heap.size }) t) where
  kept hf := (hkept _ hf).imp_right fun ⟨hs, n, hn, hbind⟩ => ⟨hs, n, _, hn, rfl, hbind⟩
  value := by
    rintro v ⟨⟩
    exact ⟨_, rfl, fun f hf => hf.mem_of_closed hclosed (by simp)⟩
  method := by
    rintro o m function values f ⟨⟩ hm hf hn
    exact unchanged_of_method hclosed (Nat.le_refl _) hm hsize hf hn

/-- Naming a new object keeps to the rules of object literals, if filling its frame did. -/
theorem secluded_nameObject (ht : (ofObject s).Alike t t) (hscope : t.scope = s.scope)
    (node : Node) :
    Secluded tracing depth name s (blame node (nameObject { name, frame := s.heap.size }) t) := by
  have hsize : s.heap.size ≤ t.heap.size := by
    have hgrown := ht.grown
    simp only [ofObject, withObjectFrame, Heap.size_allocate] at hgrown
    omega
  have hkept (f : FrameId) (hf : f < s.heap.size) : t.heap.frames[f]? = s.heap.frames[f]? := by
    rw [ht.keptLeft (Nat.not_le.mpr hf)]
    exact frames_withObjectFrame hf
  unfold blame
  rcases nameObject_cases { name, frame := s.heap.size } t with ⟨fault, hr⟩ | hr | ⟨n, hn, hr⟩
  · rw [hr]
    exact .error hkept
  · rw [hr]
    exact .ok ht.heaps.closed hsize fun f hf => Or.inl (hkept f hf)
  · rw [hr]
    have hvalue : (Value.object { name, frame := s.heap.size }).Within (ofObject s).region :=
      Value.within_object.mpr (Nat.le_refl s.heap.size)
    refine .ok (ht.heaps.bind t.scope n hvalue).closed (by simpa using hsize) ?_
    intro f hf
    by_cases hfs : f = s.scope
    · refine Or.inr ⟨hfs, n, hn, ?_⟩
      simp only [Heap.frames_bind, hscope, hfs]
      rw [hkept s.scope (hfs ▸ hf)]
    · have hne : t.scope ≠ f := fun h => hfs (h ▸ hscope)
      refine Or.inl ?_
      simp only [Heap.frames_bind, if_neg hne]
      exact hkept f hf

theorem secluded_object (tracing : Tracing) (depth : Nat) (s : State) (name : Option String)
    (fields : List Declaration) (methods : List Definition) :
    Secluded tracing depth name s
      (evalExpr (.upTo tracing depth) (.object name fields methods) s) := by
  have hm := matched_fillObject tracing depth s fields methods
  rw [evalExpr_object_apply]
  cases hr : fillObject (.upTo tracing depth) s.heap.size fields methods (withObjectFrame s) with
  | ok a t =>
      rw [hr] at hm
      unfold blame
      rw [bind_apply, hr]
      exact secluded_nameObject hm.alike hm.scope_eq _
  | error fault t =>
      rw [hr] at hm
      unfold blame
      rw [bind_apply, hr]
      refine .error fun f hf => ?_
      rw [← frames_withObjectFrame hf]
      exact hm.alike.keptLeft (Nat.not_le.mpr hf)

end Object

/-- Evaluation is confined: a tree to what the present frame reaches, a call to what the function and
its arguments reach, and the members of an object literal to what they are given. -/
theorem evaluation_confined (tracing : Tracing) (depth : Nat) (s : State) :
    (∀ node, Confined id [s.scope] s (run (.upTo tracing depth) node s)) ∧
    (∀ statement,
      Confined Completion.value [s.scope] s (execStmt (.upTo tracing depth) statement s)) ∧
    (∀ function values, Confined id (function.frames ++ Value.framesOfAll values) s
      (invoke tracing depth function values s)) ∧
    ∀ name fields methods, Secluded tracing depth name s
      (evalExpr (.upTo tracing depth) (.object name fields methods) s) := by
  have hroot : True → s.scope ∈ [s.scope] := fun _ => List.mem_singleton.mpr rfl
  refine ⟨?_, ?_, ?_, ?_⟩
  · intro node
    exact confined_of_agrees (Comparison.agrees_run _ tracing depth node) (fun _ hv => hv) hroot
  · intro statement
    exact confined_execStmt tracing depth s statement
  · intro function values
    exact confined_invoke tracing depth s function values
  · intro name fields methods
    exact secluded_object tracing depth s name fields methods

end ProtoScript.Eval
