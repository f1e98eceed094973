import ProtoScript.Value.Display

/-!
# What frames and values reach

A frame reaches its parent and whatever its values mention; a list mentions what its items mention, a
closure the frame it was defined in, and an object its own frame. A region is a set of frames. If a
region is closed under these links, then whatever is read from a frame of the region stays in it, and
two heaps that agree on the region cannot be told apart by reading from it.
-/

namespace ProtoScript

/-- The frames that a function mentions: none, or the one it was defined in. -/
def Function.frames (function : Function) : List FrameId :=
  match function.body with
  | .native _ => []
  | .closure _ scope => [scope]

mutual

/-- The frames that a value mentions. -/
def Value.frames : Value → List FrameId
  | .list items => Value.framesOfAll items
  | .function f => f.frames
  | .object o => [o.frame]
  | _ => []

/-- The frames that several values mention. -/
def Value.framesOfAll : List Value → List FrameId
  | [] => []
  | value :: rest => value.frames ++ Value.framesOfAll rest

end

theorem Value.mem_framesOfAll {f : FrameId} {values : List Value} :
    f ∈ Value.framesOfAll values ↔ ∃ value ∈ values, f ∈ value.frames := by
  induction values with
  | nil => simp [Value.framesOfAll]
  | cons value rest ih => simp [Value.framesOfAll, ih]

/-- The value mentions frames of the region only. -/
def Value.Within (region : FrameId → Prop) (value : Value) : Prop :=
  ∀ f ∈ value.frames, region f

namespace Value
variable {region : FrameId → Prop}

theorem within_list {items : List Value} :
    (Value.list items).Within region ↔ ∀ item ∈ items, item.Within region := by
  simp only [Within, frames, mem_framesOfAll]
  exact ⟨fun h item hi f hf => h f ⟨item, hi, hf⟩, fun h f ⟨item, hi, hf⟩ => h item hi f hf⟩

@[simp] theorem within_object {o : Object} : (Value.object o).Within region ↔ region o.frame :=
  List.forall_mem_singleton

theorem within_of_frames_eq_nil {value : Value} (h : value.frames = []) : value.Within region := by
  intro f hf
  rw [h] at hf
  cases hf

@[simp] theorem within_nil : Value.nil.Within region :=
  within_of_frames_eq_nil rfl

@[simp] theorem within_int (n : Int) : (Value.int n).Within region :=
  within_of_frames_eq_nil rfl

end Value

theorem Table.mem_put {κ α : Type} [DecidableEq κ] {key : κ} {value : α} {entry : κ × α}
    {entries : List (κ × α)} (h : entry ∈ put key value entries) :
    entry = (key, value) ∨ entry ∈ entries := by
  induction entries with
  | nil => simpa [put] using h
  | cons first rest ih =>
      simp only [put] at h
      split at h
      · rcases List.mem_cons.mp h with h | h
        · exact Or.inl h
        · exact Or.inr (List.mem_cons_of_mem _ h)
      · rcases List.mem_cons.mp h with h | h
        · exact Or.inr (h ▸ List.mem_cons_self)
        · exact (ih h).imp_right (List.mem_cons_of_mem _)

theorem Table.mem_of_get? {κ α : Type} [DecidableEq κ] {t : Table κ α} {key : κ} {value : α}
    (h : t.get? key = some value) : (key, value) ∈ t.entries := by
  obtain ⟨entries⟩ := t
  change find key entries = some value at h
  induction entries with
  | nil => cases h
  | cons first rest ih =>
      simp only [find] at h
      split at h
      · next hk =>
          cases h
          subst hk
          exact List.mem_cons_self
      · exact List.mem_cons_of_mem _ (ih h)

/-- A search sees a function only on the items of the list. -/
theorem findSome?_eq_of_mem {α β : Type} {p q : α → Option β} {items : List α}
    (h : ∀ a ∈ items, p a = q a) : items.findSome? p = items.findSome? q := by
  induction items with
  | nil => rfl
  | cons a rest ih =>
      have ⟨ha, hrest⟩ := List.forall_mem_cons.mp h
      simp only [List.findSome?_cons, ha, ih hrest]

theorem mapM_eq_of_mem {α β ε : Type} {p q : α → Except ε β} {items : List α}
    (h : ∀ a ∈ items, p a = q a) : items.mapM p = items.mapM q := by
  induction items with
  | nil => rfl
  | cons a rest ih =>
      have ⟨ha, hrest⟩ := List.forall_mem_cons.mp h
      simp only [List.mapM_cons, ha, ih hrest]

section Display
variable {p q : Object → Except Fault String}

mutual

/-- The text of a value depends on the objects that the value mentions only. -/
theorem displayWith_eq_of_frames (value : Value)
    (h : ∀ o : Object, o.frame ∈ value.frames → p o = q o) :
    displayWith p value = displayWith q value := by
  cases value with
  | list items =>
      have hitems := displayAllWith_eq_of_frames items h
      simp only [displayWith, hitems]
  | object o => exact h o (by simp [Value.frames])
  | _ => rfl

theorem displayAllWith_eq_of_frames (values : List Value)
    (h : ∀ o : Object, o.frame ∈ Value.framesOfAll values → p o = q o) :
    displayAllWith p values = displayAllWith q values := by
  cases values with
  | nil => rfl
  | cons value rest =>
      simp only [Value.framesOfAll, List.mem_append] at h
      have hvalue := displayWith_eq_of_frames value fun o ho => h o (Or.inl ho)
      have hrest := displayAllWith_eq_of_frames rest fun o ho => h o (Or.inr ho)
      simp only [displayAllWith, hvalue, hrest]

end

theorem displayMember_eq_of_frames (name : String) (value : Value)
    (h : ∀ o : Object, o.frame ∈ value.frames → p o = q o) :
    displayMember p name value = displayMember q name value := by
  cases value with
  | function _ => rfl
  | object _ => rfl
  | _ =>
      simp only [displayMember]
      rw [displayWith_eq_of_frames _ h]

end Display

namespace Heap

/-- The frames that can be reached from the roots. -/
inductive Reaches (h : Heap) (roots : List FrameId) : FrameId → Prop
  | root {f : FrameId} (hf : f ∈ roots) : Reaches h roots f
  | parent {f g : FrameId} (hf : Reaches h roots f) (hg : h.parent? f = some g) :
      Reaches h roots g
  | binding {f g : FrameId} {entry : String × Value} (hf : Reaches h roots f)
      (he : entry ∈ (h.bindings f).entries) (hg : g ∈ entry.2.frames) : Reaches h roots g

/-- The region holds the parent of each of its frames, and what their values mention. -/
structure Closed (h : Heap) (region : FrameId → Prop) : Prop where
  parent {f g : FrameId} (hf : region f) (hg : h.parent? f = some g) : region g
  binding {f : FrameId} {entry : String × Value} (hf : region f)
    (he : entry ∈ (h.bindings f).entries) : entry.2.Within region

theorem Reaches.mem_of_closed {h : Heap} {region : FrameId → Prop} {roots : List FrameId}
    {f : FrameId} (hf : h.Reaches roots f) (hc : h.Closed region)
    (hroots : ∀ r ∈ roots, region r) : region f := by
  induction hf with
  | root hf => exact hroots _ hf
  | parent _ hg ih => exact hc.parent ih hg
  | binding _ he hg ih => exact hc.binding ih he _ hg

theorem Reaches.mono {h : Heap} {roots others : List FrameId} {f : FrameId}
    (hf : h.Reaches roots f) (hsub : ∀ r ∈ roots, r ∈ others) : h.Reaches others f := by
  induction hf with
  | root hf => exact .root (hsub _ hf)
  | parent _ hg ih => exact ih.parent hg
  | binding _ he hg ih => exact ih.binding he hg

theorem reaches_append {h : Heap} {roots others : List FrameId} {f : FrameId} :
    h.Reaches (roots ++ others) f ↔ h.Reaches roots f ∨ h.Reaches others f := by
  constructor
  · intro hf
    induction hf with
    | root hf => exact (List.mem_append.mp hf).imp .root .root
    | parent _ hg ih => exact ih.imp (·.parent hg) (·.parent hg)
    | binding _ he hg ih => exact ih.imp (·.binding he hg) (·.binding he hg)
  · rintro (hf | hf)
    · exact hf.mono fun r hr => List.mem_append_left _ hr
    · exact hf.mono fun r hr => List.mem_append_right _ hr

/-- What the roots reach, together with all frames that do not exist yet. -/
def regionOf (h : Heap) (roots : List FrameId) (f : FrameId) : Prop :=
  h.Reaches roots f ∨ h.size ≤ f

theorem frames_eq_none {h : Heap} {f : FrameId} (hf : h.size ≤ f) : h.frames[f]? = none :=
  Array.getElem?_eq_none hf

section Bindings
variable {h : Heap} {f : FrameId} {name : String}

/-- A frame that binds something is there. -/
theorem lt_size_of_mem_bindings {entry : String × Value} (he : entry ∈ (h.bindings f).entries) :
    f < h.size := by
  refine Nat.lt_of_not_le fun hf => ?_
  simp [bindings, frames_eq_none hf] at he

theorem lt_size_of_own? {value : Value} (hv : h.own? f name = some value) : f < h.size :=
  lt_size_of_mem_bindings (Table.mem_of_get? hv)

theorem lt_size_of_binds (hb : h.binds f name = true) : f < h.size := by
  obtain ⟨value, hv⟩ := Option.isSome_iff_exists.mp hb
  exact lt_size_of_own? hv

end Bindings

theorem closed_regionOf (h : Heap) (roots : List FrameId) : h.Closed (h.regionOf roots) := by
  constructor
  · rintro f g (hf | hf) hg
    · exact Or.inl (hf.parent hg)
    · simp [parent?, frames_eq_none hf] at hg
  · rintro f entry (hf | hf) he g hg
    · exact Or.inl (hf.binding he hg)
    · simp [bindings, frames_eq_none hf] at he

namespace Closed
variable {h : Heap} {region : FrameId → Prop} {f : FrameId}

theorem own? (hc : h.Closed region) (hf : region f) {name : String} {value : Value}
    (hv : h.own? f name = some value) : value.Within region :=
  hc.binding hf (Table.mem_of_get? hv)

theorem prototype? (hc : h.Closed region) {o p : Object} (ho : region o.frame)
    (hp : h.prototype? o = some p) : region p.frame := by
  simp only [Heap.prototype?] at hp
  split at hp
  · next hv =>
      cases hp
      exact Value.within_object.mp (hc.own? ho hv)
  · cases hp

theorem chainWithin (hc : h.Closed region) (room : Nat) (hf : region f) :
    ∀ g ∈ h.chainWithin room f, region g := by
  induction room generalizing f with
  | zero => simp [Heap.chainWithin]
  | succ room ih =>
      intro g hg
      simp only [Heap.chainWithin] at hg
      split at hg
      · rw [List.mem_singleton.mp hg]
        exact hf
      · next hp =>
          rcases List.mem_cons.mp hg with rfl | hg
          · exact hf
          · exact ih (hc.parent hf hp) g hg

theorem resolve (hc : h.Closed region) (hf : region f) {name : String} {value : Value}
    (hv : h.resolve f name = some value) : value.Within region := by
  obtain ⟨g, hg, hv⟩ := List.exists_of_findSome?_eq_some hv
  exact hc.own? (hc.chainWithin _ hf g hg) hv

theorem owner? (hc : h.Closed region) (hf : region f) {name : String} {g : FrameId}
    (hg : h.owner? f name = some g) : region g :=
  hc.chainWithin _ hf g (List.mem_of_find?_eq_some hg)

theorem lookupWithin (hc : h.Closed region) {name : String} {value : Value} (room : Nat)
    {o : Object} (ho : region o.frame) (hv : h.lookupWithin name room o = some value) :
    value.Within region := by
  induction room generalizing o with
  | zero => cases hv
  | succ room ih =>
      simp only [Heap.lookupWithin] at hv
      split at hv
      · next hw =>
          cases hv
          exact hc.own? ho hw
      · split at hv
        · next hp => exact ih (hc.prototype? ho hp) hv
        · cases hv

end Closed

theorem size_allocate (h : Heap) (parent : Option FrameId) :
    (h.allocate parent).2.size = h.size + 1 := by
  simp [allocate, size]

theorem frames_allocate (h : Heap) (parent : Option FrameId) (f : FrameId) :
    (h.allocate parent).2.frames[f]? = if f = h.size then some { parent } else h.frames[f]? :=
  Array.getElem?_push

theorem frames_bind (h : Heap) (frame f : FrameId) (name : String) (value : Value) :
    (h.bind frame name value).frames[f]? =
      if frame = f then
        h.frames[f]?.map fun old => { old with bindings := old.bindings.set name value }
      else h.frames[f]? := by
  simp [bind, Array.getElem?_modify]

theorem mem_bindings_bind {h : Heap} {frame f : FrameId} {name : String} {value : Value}
    {entry : String × Value} (he : entry ∈ ((h.bind frame name value).bindings f).entries) :
    entry = (name, value) ∨ entry ∈ (h.bindings f).entries := by
  simp only [bindings, frames_bind] at he ⊢
  split at he
  · cases hx : h.frames[f]? with
    | none => simp [hx] at he
    | some old =>
        simp only [hx, Option.map_some, Option.getD_some] at he ⊢
        exact Table.mem_put he
  · exact Or.inr he

/-- Two heaps that cannot be told apart from the roots. -/
structure AgreeFrom (roots : List FrameId) (h k : Heap) : Prop where
  size : h.size = k.size
  functions : h.functions = k.functions
  frames {f : FrameId} (hf : h.Reaches roots f) : h.frames[f]? = k.frames[f]?

/-- Two heaps that cannot be told apart inside a closed region. -/
structure Agree (region : FrameId → Prop) (h k : Heap) : Prop where
  size : h.size = k.size
  functions : h.functions = k.functions
  closed : h.Closed region
  frames {f : FrameId} (hf : region f) : h.frames[f]? = k.frames[f]?

namespace Agree
variable {region : FrameId → Prop} {h k : Heap} {f : FrameId}

theorem parent? (ha : Agree region h k) (hf : region f) : h.parent? f = k.parent? f := by
  rw [Heap.parent?, Heap.parent?, ha.frames hf]

theorem bindings (ha : Agree region h k) (hf : region f) : h.bindings f = k.bindings f := by
  rw [Heap.bindings, Heap.bindings, ha.frames hf]

theorem own? (ha : Agree region h k) (hf : region f) (name : String) :
    h.own? f name = k.own? f name := by
  rw [Heap.own?, Heap.own?, ha.bindings hf]

theorem binds (ha : Agree region h k) (hf : region f) (name : String) :
    h.binds f name = k.binds f name := by
  rw [Heap.binds, Heap.binds, ha.own? hf]

theorem chainWithin (ha : Agree region h k) (room : Nat) (hf : region f) :
    h.chainWithin room f = k.chainWithin room f := by
  induction room generalizing f with
  | zero => rfl
  | succ room ih =>
      simp only [Heap.chainWithin, ← ha.parent? hf]
      split
      · rfl
      · next hp => rw [ih (ha.closed.parent hf hp)]

theorem chain (ha : Agree region h k) (hf : region f) : h.chain f = k.chain f := by
  rw [Heap.chain, Heap.chain, ha.size, ha.chainWithin _ hf]

theorem resolve (ha : Agree region h k) (hf : region f) (name : String) :
    h.resolve f name = k.resolve f name := by
  rw [Heap.resolve, Heap.resolve, ← ha.chain hf]
  refine findSome?_eq_of_mem ?_
  intro g hg
  exact ha.own? (ha.closed.chainWithin _ hf g hg) name

theorem owner? (ha : Agree region h k) (hf : region f) (name : String) :
    h.owner? f name = k.owner? f name := by
  rw [Heap.owner?, Heap.owner?, ← ha.chain hf, List.find?_eq_findSome?_guard,
    List.find?_eq_findSome?_guard]
  refine findSome?_eq_of_mem ?_
  intro g hg
  rw [Option.guard, Option.guard, ha.binds (ha.closed.chainWithin _ hf g hg)]

theorem lookupWithin (ha : Agree region h k) (name : String) (room : Nat) {o : Object}
    (ho : region o.frame) : h.lookupWithin name room o = k.lookupWithin name room o := by
  induction room generalizing o with
  | zero => rfl
  | succ room ih =>
      have hp : h.prototype? o = k.prototype? o := by
        rw [Heap.prototype?, Heap.prototype?, ha.own? ho]
      simp only [Heap.lookupWithin, ← ha.own? ho, ← hp]
      split
      · rfl
      · split
        · next hq => exact ih (ha.closed.prototype? ho hq)
        · rfl

theorem lookup (ha : Agree region h k) {o : Object} (ho : region o.frame) (name : String) :
    h.lookup o name = k.lookup o name := by
  rw [Heap.lookup, Heap.lookup, ha.size, ha.lookupWithin _ _ ho]

theorem displayObject (ha : Agree region h k) (room : Nat) (path : List FrameId) {o : Object}
    (ho : region o.frame) : displayObject h room path o = displayObject k room path o := by
  induction room generalizing path o with
  | zero => rfl
  | succ room ih =>
      simp only [ProtoScript.displayObject, ← ha.bindings ho]
      split
      · rfl
      · refine congrArg (· >>= _) (mapM_eq_of_mem ?_)
        intro member hm
        refine displayMember_eq_of_frames _ _ ?_
        intro inner hi
        exact ih _ (ha.closed.binding ho hm _ hi)

theorem display (ha : Agree region h k) {value : Value} (hv : value.Within region) :
    display h value = display k value := by
  rw [ProtoScript.display, ProtoScript.display, ha.size]
  exact displayWith_eq_of_frames value fun o ho => ha.displayObject _ _ (hv _ ho)

/-- Writing a value of the region keeps heaps alike. -/
theorem bind (ha : Agree region h k) (f : FrameId) (name : String) {value : Value}
    (hv : value.Within region) : Agree region (h.bind f name value) (k.bind f name value) where
  size := by simp [ha.size]
  functions := ha.functions
  closed := by
    constructor
    · intro g p hg hp
      rw [parent?_bind] at hp
      exact ha.closed.parent hg hp
    · intro g entry hg he
      rcases mem_bindings_bind he with rfl | he
      · exact hv
      · exact ha.closed.binding hg he
  frames := by
    intro g hg
    rw [frames_bind, frames_bind, ha.frames hg]

/-- A new frame under a frame of the region keeps heaps alike. -/
theorem allocate (ha : Agree region h k) {parent : Option FrameId}
    (hp : ∀ p ∈ parent, region p) : Agree region (h.allocate parent).2 (k.allocate parent).2 where
  size := by simp [Heap.size_allocate, ha.size]
  functions := ha.functions
  closed := by
    constructor
    · intro g p hg hgp
      by_cases hn : g = h.size
      · simp only [Heap.parent?, frames_allocate, hn] at hgp
        exact hp p hgp
      · rw [Heap.parent?, frames_allocate, if_neg hn] at hgp
        exact ha.closed.parent hg hgp
    · intro g entry hg he
      by_cases hn : g = h.size
      · simp [Heap.bindings, frames_allocate, hn] at he
      · rw [Heap.bindings, frames_allocate, if_neg hn] at he
        exact ha.closed.binding hg he
  frames := by
    intro g hg
    rw [frames_allocate, frames_allocate, ha.size, ha.frames hg]

/-- A new function keeps heaps alike. -/
theorem createFunction (ha : Agree region h k) (name : String) (body : Body) :
    Agree region (h.createFunction name body).2 (k.createFunction name body).2 where
  size := ha.size
  functions := congrArg (· + 1) ha.functions
  closed := ⟨ha.closed.parent, ha.closed.binding⟩
  frames := ha.frames

end Agree

theorem AgreeFrom.agree {roots : List FrameId} {h k : Heap} (ha : AgreeFrom roots h k) :
    Agree (h.regionOf roots) h k where
  size := ha.size
  functions := ha.functions
  closed := h.closed_regionOf roots
  frames := by
    rintro f (hf | hf)
    · exact ha.frames hf
    · rw [frames_eq_none hf, frames_eq_none (ha.size ▸ hf)]

theorem Agree.agreeFrom {region : FrameId → Prop} {h k : Heap} (ha : Agree region h k)
    {roots : List FrameId} (hroots : ∀ r ∈ roots, region r) : AgreeFrom roots h k where
  size := ha.size
  functions := ha.functions
  frames hf := ha.frames (hf.mem_of_closed ha.closed hroots)

end Heap

end ProtoScript
