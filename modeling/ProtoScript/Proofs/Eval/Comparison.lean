import ProtoScript.Proofs.Eval.Outcome
import ProtoScript.Proofs.Heap.Reach

/-!
# Two evaluations side by side

The same step is taken from two states whose heaps agree on a region. A step that reads and writes
inside the region alone does the same in both: it gives the same value, which stays in the region, or
the same fault, it writes the same lines, and it leaves everything outside the region as it was. Here
this is shown of single steps, and of steps that follow each other.
-/

namespace ProtoScript.Eval

/-- Where two evaluations started, and the region in which they are compared. Frames that did not
exist at the start belong to it. -/
structure Comparison where
  left : State
  right : State
  region : FrameId → Prop
  fresh {f : FrameId} (hf : left.heap.size ≤ f) : region f

namespace Comparison
variable {c : Comparison} {here : Prop} {α β : Type} {post : α → Prop} {s t : State}

/-- Two states that the evaluations can have come to. -/
structure Alike (c : Comparison) (s t : State) : Prop where
  heaps : Heap.Agree c.region s.heap t.heap
  grown : c.left.heap.size ≤ s.heap.size
  keptLeft {f : FrameId} (hf : ¬c.region f) : s.heap.frames[f]? = c.left.heap.frames[f]?
  keptRight {f : FrameId} (hf : ¬c.region f) : t.heap.frames[f]? = c.right.heap.frames[f]?
  output : ∃ events, s.output = c.left.output ++ events ∧ t.output = c.right.output ++ events

/-- Both evaluations look names up in one frame of the region. -/
def Placed (c : Comparison) (s t : State) : Prop :=
  s.scope = t.scope ∧ c.region s.scope

/-- Two results that only the states outside the region tell apart. -/
inductive Matched (c : Comparison) (post : α → Prop) (s t : State) :
    EStateM.Result Fault State α → EStateM.Result Fault State α → Prop
  | ok {a : α} {s' t' : State} (ha : post a) (hst : c.Alike s' t') (hs : s'.scope = s.scope)
      (ht : t'.scope = t.scope) : Matched c post s t (.ok a s') (.ok a t')
  | error {fault : Fault} {s' t' : State} (hst : c.Alike s' t') (hs : s'.scope = s.scope)
      (ht : t'.scope = t.scope) : Matched c post s t (.error fault s') (.error fault t')

section Matched
variable {r r' : EStateM.Result Fault State α}

theorem Matched.alike (h : c.Matched post s t r r') : c.Alike (finalState r) (finalState r') := by
  cases h with
  | ok _ hst _ _ => exact hst
  | error hst _ _ => exact hst

theorem Matched.outcome_eq (h : c.Matched post s t r r') : outcome r = outcome r' := by
  cases h with
  | ok => rfl
  | error => rfl

theorem Matched.holds (h : c.Matched post s t r r') {a : α} (hr : outcome r = .ok a) : post a := by
  cases h with
  | ok ha _ _ _ =>
      cases hr
      exact ha
  | error => cases hr

theorem Matched.scope_eq (h : c.Matched post s t r r') : (finalState r).scope = s.scope := by
  cases h with
  | ok _ _ hs _ => exact hs
  | error _ hs _ => exact hs

end Matched

/-- The comparison of two states on what the roots reach. -/
def ofRoots (roots : List FrameId) (s t : State) : Comparison where
  left := s
  right := t
  region := s.heap.regionOf roots
  fresh := Or.inr

theorem alike_ofRoots {roots : List FrameId} (h : Heap.AgreeFrom roots s.heap t.heap) :
    (ofRoots roots s t).Alike s t where
  heaps := h.agree
  grown := Nat.le_refl _
  keptLeft _ := rfl
  keptRight _ := rfl
  output := ⟨#[], by simp [ofRoots]⟩

theorem region_of_mem {roots : List FrameId} {f : FrameId} (hf : f ∈ roots) :
    (ofRoots roots s t).region f :=
  Or.inl (.root hf)

/-- The step does the same in both evaluations. If `here` holds, it may depend on the frame in which
names are looked up. -/
def Agrees (c : Comparison) (here : Prop) (post : α → Prop) (step : Eval α) : Prop :=
  ∀ s t, c.Alike s t → (here → c.Placed s t) → c.Matched post s t (step s) (step t)

namespace Agrees

theorem pure {a : α} (ha : post a) : c.Agrees here post (Pure.pure a) :=
  fun _ _ hst _ => .ok ha hst rfl rfl

theorem throw (fault : Fault) : c.Agrees here post (MonadExcept.throw fault) :=
  fun _ _ hst _ => .error hst rfl rfl

theorem raise (cause : Cause) : c.Agrees here post (Eval.raise cause) :=
  .throw _

theorem raiseAt (node : Node) (cause : Cause) : c.Agrees here post (Eval.raiseAt node cause) :=
  .throw _

/-- Steps that do the same can follow each other. -/
theorem bind {mid : α → Prop} {post : β → Prop} {m : Eval α} {k : α → Eval β}
    (hm : c.Agrees here mid m) (hk : ∀ a, mid a → c.Agrees here post (k a)) :
    c.Agrees here post (m >>= k) := by
  intro s t hst hp
  have hr := hm s t hst hp
  rw [bind_apply, bind_apply]
  generalize m s = r at hr ⊢
  generalize m t = r' at hr ⊢
  cases hr with
  | error hst' hs ht => exact .error hst' hs ht
  | @ok a s' t' ha hst' hs ht =>
      have hp' : here → c.Placed s' t' := by
        intro h
        rw [Placed, hs, ht]
        exact hp h
      have hr := hk a ha s' t' hst' hp'
      simp only
      generalize k a s' = r at hr ⊢
      generalize k a t' = r' at hr ⊢
      cases hr with
      | ok hb hst'' hs' ht' => exact .ok hb hst'' (hs'.trans hs) (ht'.trans ht)
      | error hst'' hs' ht' => exact .error hst'' (hs'.trans hs) (ht'.trans ht)

/-- What holds wherever a step is taken holds in a frame of the region. -/
theorem placed {m : Eval α} (hm : c.Agrees here post m) : c.Agrees True post m :=
  fun s t hst hp => hm s t hst fun _ => hp trivial

theorem blame {m : Eval α} (node : Node) (hm : c.Agrees here post m) :
    c.Agrees here post (Eval.blame node m) := by
  intro s t hst hp
  have hr := hm s t hst hp
  unfold Eval.blame
  generalize m s = r at hr ⊢
  generalize m t = r' at hr ⊢
  cases hr with
  | ok ha hst' hs ht => exact .ok ha hst' hs ht
  | error hst' hs ht => exact .error hst' hs ht

end Agrees

/-- The frame in which names are looked up is no part of the comparison. -/
theorem Alike.withScopes (hst : c.Alike s t) (f g : FrameId) :
    c.Alike { s with scope := f } { t with scope := g } :=
  ⟨hst.heaps, hst.grown, hst.keptLeft, hst.keptRight, hst.output⟩

/-- Inside a frame of the region a step may depend on where it is. -/
theorem Agrees.within {m : Eval α} {frame : FrameId} (hf : c.region frame)
    (hm : c.Agrees True post m) : c.Agrees here post (Eval.within frame m) := by
  intro s t hst _
  have hr := hm _ _ (hst.withScopes frame frame) fun _ => ⟨rfl, hf⟩
  unfold Eval.within
  generalize m { s with scope := frame } = r at hr ⊢
  generalize m { t with scope := frame } = r' at hr ⊢
  cases hr with
  | ok ha hst' _ _ => exact .ok ha (hst'.withScopes s.scope t.scope) rfl rfl
  | error hst' _ _ => exact .error (hst'.withScopes s.scope t.scope) rfl rfl

theorem agrees_ofExcept (e : Except Fault α) (hpost : ∀ a, e = .ok a → post a) :
    c.Agrees here post (ofExcept e) := by
  cases e with
  | ok a => exact .pure (hpost a rfl)
  | error fault => exact .throw fault

theorem agrees_kind (v : Value) : c.Agrees here (fun _ => True) (kind v) :=
  agrees_ofExcept _ fun _ _ => trivial

theorem agrees_write (event : Event) : c.Agrees here (fun _ => True) (write event) := by
  intro s t hst _
  obtain ⟨events, hs, ht⟩ := hst.output
  refine .ok trivial ⟨hst.heaps, hst.grown, hst.keptLeft, hst.keptRight, events.push event, ?_⟩ rfl rfl
  simp [hs, ht]

/-- A step that only reads, and reads the same in both states. -/
theorem agrees_read {step : Eval α} (f : State → α) (hstep : ∀ s, step s = .ok (f s) s)
    (hf : ∀ s t, c.Alike s t → (here → c.Placed s t) → f s = f t ∧ post (f s)) :
    c.Agrees here post step := by
  intro s t hst hp
  obtain ⟨heq, hpost⟩ := hf s t hst hp
  rw [hstep, hstep, ← heq]
  exact .ok hpost hst rfl rfl

theorem agrees_resolve (name : String) :
    c.Agrees True (fun found => ∀ value ∈ found, value.Within c.region) (resolve name) := by
  refine agrees_read (fun s => s.heap.resolve s.scope name) (fun _ => rfl) ?_
  intro s t hst hp
  obtain ⟨hscope, hregion⟩ := hp trivial
  refine ⟨?_, fun value hv => hst.heaps.closed.resolve hregion hv⟩
  rw [← hscope]
  exact hst.heaps.resolve hregion name

theorem agrees_scope : c.Agrees True c.region (State.scope <$> get) :=
  agrees_read State.scope (fun _ => rfl) fun _ _ _ hp => hp trivial

theorem agrees_lookup {o : Object} (ho : c.region o.frame) (name : String) :
    c.Agrees here (fun found => ∀ value ∈ found, value.Within c.region) (lookup o name) := by
  refine agrees_read (fun s => s.heap.lookup o name) (fun _ => rfl) ?_
  intro s t hst _
  exact ⟨hst.heaps.lookup ho name, fun value hv => hst.heaps.closed.lookupWithin _ ho hv⟩

theorem agrees_display {post : String → Prop} {v : Value} (hv : v.Within c.region)
    (hpost : ∀ text, post text) : c.Agrees here post (display v) := by
  intro s t hst hp
  have heq := hst.heaps.display hv
  change c.Matched _ s t (ofExcept (ProtoScript.display s.heap v) s)
    (ofExcept (ProtoScript.display t.heap v) t)
  rw [← heq]
  have hstep : c.Agrees here post (ofExcept (ProtoScript.display s.heap v)) :=
    agrees_ofExcept _ fun text _ => hpost text
  exact hstep s t hst hp

theorem Alike.bind (hst : c.Alike s t) {frame : FrameId} (hf : c.region frame) (name : String)
    {value : Value} (hv : value.Within c.region) :
    c.Alike { s with heap := s.heap.bind frame name value }
      { t with heap := t.heap.bind frame name value } where
  heaps := hst.heaps.bind frame name hv
  grown := by simpa using hst.grown
  keptLeft := by
    intro f hn
    have hne : frame ≠ f := fun h => hn (h ▸ hf)
    rw [Heap.frames_bind, if_neg hne]
    exact hst.keptLeft hn
  keptRight := by
    intro f hn
    have hne : frame ≠ f := fun h => hn (h ▸ hf)
    rw [Heap.frames_bind, if_neg hne]
    exact hst.keptRight hn
  output := hst.output

theorem Alike.allocate (hst : c.Alike s t) {parent : Option FrameId}
    (hp : ∀ p ∈ parent, c.region p) :
    c.Alike { s with heap := (s.heap.allocate parent).2 }
      { t with heap := (t.heap.allocate parent).2 } where
  heaps := hst.heaps.allocate hp
  grown := by
    have hgrown := hst.grown
    simp only [Heap.size_allocate]
    omega
  keptLeft := by
    intro f hn
    have hne : f ≠ s.heap.size := fun h => hn (h ▸ c.fresh hst.grown)
    rw [Heap.frames_allocate, if_neg hne]
    exact hst.keptLeft hn
  keptRight := by
    intro f hn
    have hne : f ≠ s.heap.size := fun h => hn (h ▸ c.fresh hst.grown)
    rw [Heap.frames_allocate, ← hst.heaps.size, if_neg hne]
    exact hst.keptRight hn
  output := hst.output

theorem agrees_bindIn {frame : FrameId} (hf : c.region frame) (name : String) {value : Value}
    (hv : value.Within c.region) : c.Agrees here (fun _ => True) (bindIn frame name value) :=
  fun _ _ hst _ => .ok trivial (hst.bind hf name hv) rfl rfl

/-- A new frame was not there at the start, so it belongs to the region. -/
theorem agrees_allocate {post : FrameId → Prop} {parent : Option FrameId} (hp : ∀ p ∈ parent, c.region p)
    (hpost : ∀ f, c.region f → post f) : c.Agrees here post (allocate parent) := by
  intro s t hst _
  have hsize : t.heap.size = s.heap.size := hst.heaps.size.symm
  change c.Matched post s t (.ok s.heap.size { s with heap := (s.heap.allocate parent).2 })
    (.ok t.heap.size { t with heap := (t.heap.allocate parent).2 })
  rw [hsize]
  exact .ok (hpost _ (c.fresh hst.grown)) (hst.allocate hp) rfl rfl

theorem agrees_createFunction (name : String) {body : Body}
    (hb : ∀ ident, (Value.function { ident, name, body }).Within c.region) :
    c.Agrees here (fun function => (Value.function function).Within c.region)
      (createFunction name body) := by
  intro s t hst _
  have hident : t.heap.functions = s.heap.functions := hst.heaps.functions.symm
  change c.Matched _ s t
    (.ok (Function.mk s.heap.functions name body)
      { s with heap := (s.heap.createFunction name body).2 })
    (.ok (Function.mk t.heap.functions name body)
      { t with heap := (t.heap.createFunction name body).2 })
  rw [hident]
  refine .ok (hb _) ⟨hst.heaps.createFunction name body, ?_, ?_, ?_, hst.output⟩ rfl rfl
  · exact hst.grown
  · exact hst.keptLeft
  · exact hst.keptRight

theorem agrees_defineIn {frame : FrameId} (hf : c.region frame) (name : String) {value : Value}
    (hv : value.Within c.region) : c.Agrees here (fun _ => True) (defineIn frame name value) := by
  intro s t hst _
  rw [defineIn_apply, defineIn_apply, Heap.define, Heap.define, ← hst.heaps.binds hf]
  cases s.heap.binds frame name with
  | true => exact .error hst rfl rfl
  | false => exact .ok trivial (hst.bind hf name hv) rfl rfl

theorem agrees_assign (name : String) {value : Value} (hv : value.Within c.region) :
    c.Agrees True (fun _ => True) (assign name value) := by
  intro s t hst hp
  obtain ⟨hscope, hregion⟩ := hp trivial
  have howner : t.heap.owner? t.scope name = s.heap.owner? s.scope name := by
    rw [← hscope, hst.heaps.owner? hregion]
  rw [assign_apply, assign_apply, Heap.assign, Heap.assign, howner]
  cases ho : s.heap.owner? s.scope name with
  | none => exact .error hst rfl rfl
  | some owner => exact .ok trivial (hst.bind (hst.heaps.closed.owner? hregion ho) name hv) rfl rfl

end Comparison

end ProtoScript.Eval
