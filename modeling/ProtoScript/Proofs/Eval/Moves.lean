import Mathlib.Logic.Relation
import ProtoScript.Eval.Native
import ProtoScript.Proofs.Heap.Reach

/-!
# Moves of a run

A run of programs changes its state by small moves: it opens a frame, creates an object or a function,
binds a name, writes a line, or goes to another frame. A point of a run is a state together with the
objects that were created up to it. The frames of a point are sound: parents are older than their
children, the frames without a parent are the root and the own frames of objects, and whatever a value
refers to is there. Every move keeps this, and no move takes a name from a frame or changes the order of
the names in it; so the same holds along every path of moves.
-/

namespace ProtoScript

mutual

/-- The values that a value is made of: the items of lists, and otherwise the value itself. -/
def Value.leaves : Value → List Value
  | .list items => Value.leavesOfAll items
  | value => [value]

/-- The values that several values are made of. -/
def Value.leavesOfAll : List Value → List Value
  | [] => []
  | value :: rest => value.leaves ++ Value.leavesOfAll rest

end

theorem Value.mem_leavesOfAll {leaf : Value} {values : List Value} :
    leaf ∈ Value.leavesOfAll values ↔ ∃ value ∈ values, leaf ∈ value.leaves := by
  induction values with
  | nil => simp [Value.leavesOfAll]
  | cons value rest ih => simp [Value.leavesOfAll, ih]

/-- Every value that the value is made of has the property. -/
def Value.All (P : Value → Prop) (value : Value) : Prop :=
  ∀ leaf ∈ value.leaves, P leaf

namespace Value
variable {P Q : Value → Prop}

theorem all_list {items : List Value} :
    (Value.list items).All P ↔ ∀ item ∈ items, item.All P := by
  simp only [All, leaves, mem_leavesOfAll]
  exact ⟨fun h item hi leaf hl => h leaf ⟨item, hi, hl⟩, fun h leaf ⟨item, hi, hl⟩ => h item hi leaf hl⟩

theorem all_self {value : Value} (h : value.leaves = [value]) : value.All P ↔ P value := by
  simp [All, h]

@[simp] theorem all_object {o : Object} : (Value.object o).All P ↔ P (.object o) :=
  all_self rfl

@[simp] theorem all_function {f : Function} : (Value.function f).All P ↔ P (.function f) :=
  all_self rfl

theorem All.mono {value : Value} (h : value.All P) (hPQ : ∀ leaf, P leaf → Q leaf) : value.All Q :=
  fun leaf hl => hPQ leaf (h leaf hl)

end Value

namespace Heap
variable {h k : Heap} {frame f : FrameId}

/-- What cannot be undone in a heap: frames stay under their parents, and names stay in their frames in
the order in which they came. -/
structure Grows (h k : Heap) : Prop where
  size : h.size ≤ k.size
  parent {f : FrameId} (hf : f < h.size) : k.parent? f = h.parent? f
  names (f : FrameId) : (h.bindings f).keys <+: (k.bindings f).keys

theorem Grows.refl (h : Heap) : h.Grows h :=
  ⟨Nat.le_refl _, fun _ => rfl, fun _ => List.prefix_refl _⟩

theorem Grows.trans {l : Heap} (hk : h.Grows k) (hl : k.Grows l) : h.Grows l where
  size := Nat.le_trans hk.size hl.size
  parent hf := (hl.parent (Nat.lt_of_lt_of_le hf hk.size)).trans (hk.parent hf)
  names f := (hk.names f).trans (hl.names f)

theorem parent?_allocate (h : Heap) (parent : Option FrameId) (f : FrameId) :
    (h.allocate parent).2.parent? f = if f = h.size then parent else h.parent? f := by
  rw [parent?, frames_allocate]
  split <;> rfl

theorem bindings_allocate (h : Heap) (parent : Option FrameId) (f : FrameId) :
    (h.allocate parent).2.bindings f = h.bindings f := by
  rw [bindings, bindings, frames_allocate]
  split
  · next hf => rw [hf, frames_eq_none (Nat.le_refl _)]; rfl
  · rfl

theorem grows_allocate (h : Heap) (parent : Option FrameId) : h.Grows (h.allocate parent).2 where
  size := by
    rw [size_allocate]
    exact Nat.le_succ _
  parent hf := by rw [parent?_allocate, if_neg (Nat.ne_of_lt hf)]
  names f := by simp [bindings_allocate]

theorem grows_createFunction (h : Heap) (name : String) (body : Body) :
    h.Grows (h.createFunction name body).2 :=
  ⟨Nat.le_refl _, fun _ => rfl, fun _ => List.prefix_refl _⟩

/-- A binding puts a name at the end of a frame, or leaves all names in place. -/
theorem grows_bind (hf : frame < h.size) (name : String) (value : Value) :
    h.Grows (h.bind frame name value) where
  size := Nat.le_of_eq (size_bind h frame name value).symm
  parent _ := parent?_bind _ _ _ _ _
  names f := by
    rw [bindings_bind h frame f name value hf]
    split
    · next hff =>
        rw [hff, Table.keys_set]
        split
        · exact List.prefix_refl _
        · exact List.prefix_append _ _
    · exact List.prefix_refl _

end Heap

namespace Heap
variable {h : Heap} {P Q : Value → Prop}

/-- Every value that is bound in a frame of the heap has the property. -/
def AllBound (P : Value → Prop) (h : Heap) : Prop :=
  ∀ f, ∀ entry ∈ (h.bindings f).entries, P entry.2

theorem AllBound.mono (ha : h.AllBound P) (hPQ : ∀ value, P value → Q value) : h.AllBound Q :=
  fun f entry he => hPQ entry.2 (ha f entry he)

theorem AllBound.bind (ha : h.AllBound P) {value : Value} (hv : P value) (frame : FrameId)
    (name : String) : (h.bind frame name value).AllBound P := by
  intro f entry he
  rcases mem_bindings_bind he with rfl | he
  · exact hv
  · exact ha f entry he

theorem AllBound.allocate (ha : h.AllBound P) (parent : Option FrameId) :
    (h.allocate parent).2.AllBound P := by
  intro f entry he
  rw [bindings_allocate] at he
  exact ha f entry he

end Heap

/-- A point of a run: the state, and the objects that were created up to it. -/
structure Point extends State where
  objects : List Object

namespace Point

/-- What a value refers to by itself is there: the frame that a function was defined in, and the
object. -/
def Has (p : Point) : Value → Prop
  | .function f => ∀ frame ∈ f.frames, frame < p.heap.size
  | .object o => o ∈ p.objects
  | _ => True

/-- All that a value refers to is there. -/
def Knows (p : Point) (value : Value) : Prop :=
  value.All p.Has

/-- What holds at every point of a run. -/
structure Sound (p : Point) : Prop where
  /-- A parent was there before its children. -/
  older {f g : FrameId} (hg : p.heap.parent? f = some g) : g < f
  /-- A frame without a parent is the root or belongs to an object. -/
  parentless {f : FrameId} (hf : f < p.heap.size) (hn : p.heap.parent? f = none) :
    f = Heap.rootFrame ∨ ∃ o ∈ p.objects, o.frame = f
  /-- The frame of an object is there, and has no parent. -/
  object {o : Object} (ho : o ∈ p.objects) : o.frame < p.heap.size ∧ p.heap.parent? o.frame = none
  /-- Whatever bound values refer to is there. -/
  binding : p.heap.AllBound p.Knows
  /-- The present frame is there. -/
  scope : p.scope < p.heap.size

/-- What cannot be undone between two points. -/
structure Before (p q : Point) : Prop where
  heap : p.heap.Grows q.heap
  objects {o : Object} (ho : o ∈ p.objects) : o ∈ q.objects

theorem Before.refl (p : Point) : p.Before p :=
  ⟨Heap.Grows.refl _, id⟩

theorem Before.trans {p q r : Point} (h : p.Before q) (h' : q.Before r) : p.Before r :=
  ⟨h.heap.trans h'.heap, fun ho => h'.objects (h.objects ho)⟩

/-- What was there stays there. -/
theorem Has.later {p q : Point} {value : Value} (hv : p.Has value) (h : p.Before q) :
    q.Has value := by
  cases value with
  | function f => exact fun frame hf => Nat.lt_of_lt_of_le (hv frame hf) h.heap.size
  | object o => exact h.objects hv
  | nil | bool | int | decimal | character | string | list | foreign => trivial

theorem Knows.later {p q : Point} {value : Value} (hv : p.Knows value) (h : p.Before q) :
    q.Knows value :=
  hv.mono fun _ hleaf => hleaf.later h

end Point

/-- The moves of a run. -/
inductive Move (p : Point) : Point → Prop
  | openFrame {parent : FrameId} (hp : parent < p.heap.size) :
      Move p { p with heap := (p.heap.allocate (some parent)).2 }
  /-- A new object with a frame of its own. -/
  | createObject (name : Option String) :
      Move p { p with
        heap := (p.heap.allocate none).2
        objects := { name, frame := p.heap.size } :: p.objects }
  | createFunction (name : String) (body : Body) :
      Move p { p with heap := (p.heap.createFunction name body).2 }
  | bind {frame : FrameId} (hf : frame < p.heap.size) (name : String) {value : Value}
      (hv : p.Knows value) : Move p { p with heap := p.heap.bind frame name value }
  | write (event : Event) : Move p { p with output := p.output.push event }
  | enter {frame : FrameId} (hf : frame < p.heap.size) : Move p { p with scope := frame }

namespace Move
variable {p q : Point}

/-- A move undoes nothing. -/
theorem before (h : Move p q) : p.Before q := by
  cases h with
  | openFrame _ => exact ⟨Heap.grows_allocate _ _, id⟩
  | createObject name => exact ⟨Heap.grows_allocate _ _, List.mem_cons_of_mem _⟩
  | createFunction name body => exact ⟨Heap.grows_createFunction _ name body, id⟩
  | bind hf name _ => exact ⟨Heap.grows_bind hf name _, id⟩
  | write event => exact ⟨Heap.Grows.refl _, id⟩
  | enter _ => exact ⟨Heap.Grows.refl _, id⟩

/-- A new frame is younger than its parent, and has no bindings yet. Without a parent it belongs to a new
object. -/
theorem sound_allocate {parent : Option FrameId} {objects : List Object} (hs : p.Sound)
    (hp : ∀ g ∈ parent, g < p.heap.size) (hold : ∀ o ∈ p.objects, o ∈ objects)
    (hnew : ∀ o ∈ objects, o ∈ p.objects ∨ o.frame = p.heap.size ∧ parent = none)
    (hown : parent = none → ∃ o ∈ objects, o.frame = p.heap.size) :
    Point.Sound { p with heap := (p.heap.allocate parent).2, objects } := by
  have hbefore : p.Before { p with heap := (p.heap.allocate parent).2, objects } :=
    ⟨Heap.grows_allocate _ _, hold _⟩
  have hsize : p.heap.size < (p.heap.allocate parent).2.size := by
    rw [Heap.size_allocate]
    exact Nat.lt_succ_self _
  constructor
  · intro f g hg
    rw [Heap.parent?_allocate] at hg
    split at hg
    · next hf => exact hf ▸ hp g hg
    · exact hs.older hg
  · intro f hf hn
    rw [Heap.parent?_allocate] at hn
    split at hn
    · next hff => exact hff ▸ Or.inr (hown hn)
    · next hff =>
        rw [Heap.size_allocate] at hf
        have hlt : f < p.heap.size := Nat.lt_of_le_of_ne (Nat.le_of_lt_succ hf) hff
        exact (hs.parentless hlt hn).imp_right fun ⟨o, ho, hframe⟩ => ⟨o, hold o ho, hframe⟩
  · intro o ho
    rcases hnew o ho with ho | ⟨hframe, hnone⟩
    · obtain ⟨hlt, hparent⟩ := hs.object ho
      exact ⟨Nat.lt_trans hlt hsize, (hbefore.heap.parent hlt).trans hparent⟩
    · rw [hframe]
      refine ⟨hsize, ?_⟩
      rw [Heap.parent?_allocate, if_pos rfl]
      exact hnone
  · exact (hs.binding.allocate parent).mono fun _ hv => hv.later hbefore
  · exact Nat.lt_trans hs.scope hsize

theorem sound_bind {frame : FrameId} (hs : p.Sound) (hf : frame < p.heap.size) (name : String)
    {value : Value} (hv : p.Knows value) :
    Point.Sound { p with heap := p.heap.bind frame name value } := by
  have hbefore : p.Before { p with heap := p.heap.bind frame name value } :=
    (Move.bind hf name hv).before
  have hsize : (p.heap.bind frame name value).size = p.heap.size := Heap.size_bind _ _ _ _
  constructor
  · intro f g hg
    rw [Heap.parent?_bind] at hg
    exact hs.older hg
  · intro f hlt hn
    rw [Heap.parent?_bind] at hn
    exact hs.parentless (hsize ▸ hlt) hn
  · intro o ho
    rw [hsize, Heap.parent?_bind]
    exact hs.object ho
  · exact (hs.binding.bind hv frame name).mono fun _ hv => hv.later hbefore
  · exact hsize ▸ hs.scope

/-- A move keeps points sound. -/
theorem sound (h : Move p q) (hs : p.Sound) : q.Sound := by
  cases h with
  | openFrame hp => exact sound_allocate hs (by simpa using hp) (fun _ ho => ho) (fun _ ho => .inl ho) nofun
  | createObject name =>
      refine sound_allocate hs nofun (fun _ ho => List.mem_cons_of_mem _ ho) ?_ ?_
      · intro o ho
        rcases List.mem_cons.mp ho with rfl | ho
        · exact .inr ⟨rfl, rfl⟩
        · exact .inl ho
      · exact fun _ => ⟨_, List.mem_cons_self, rfl⟩
  | createFunction name body => exact ⟨hs.older, hs.parentless, hs.object, hs.binding, hs.scope⟩
  | bind hf name hv => exact sound_bind hs hf name hv
  | write event => exact ⟨hs.older, hs.parentless, hs.object, hs.binding, hs.scope⟩
  | enter hf => exact ⟨hs.older, hs.parentless, hs.object, hs.binding, hf⟩

end Move

namespace Point
variable {p q r : Point}

/-- Moves lead from one point to another. -/
def Path (p q : Point) : Prop :=
  Relation.ReflTransGen Move p q

theorem Path.refl (p : Point) : p.Path p :=
  Relation.ReflTransGen.refl

theorem Path.trans (h : p.Path q) (h' : q.Path r) : p.Path r :=
  Relation.ReflTransGen.trans h h'

theorem Path.of_move (h : Move p q) : p.Path q :=
  Relation.ReflTransGen.single h

/-- What one move keeps, a path of moves keeps. -/
theorem Path.sound (h : p.Path q) (hs : p.Sound) : q.Sound := by
  induction h with
  | refl => exact hs
  | tail _ hmove ih => exact hmove.sound ih

theorem Path.before (h : p.Path q) : p.Before q := by
  induction h with
  | refl => exact .refl p
  | tail _ hmove ih => exact ih.trans hmove.before

end Point

namespace Heap
variable {h : Heap} {f : FrameId}

/-- The frames go from parent to parent, starting with `f`, and end with one that has no parent. -/
inductive Ancestry (h : Heap) : (f : FrameId) → (frames : List FrameId) → (last : FrameId) → Prop
  | last {f : FrameId} (hn : h.parent? f = none) : Ancestry h f [f] f
  | parent {f g last : FrameId} {frames : List FrameId} (hg : h.parent? f = some g)
      (hr : Ancestry h g frames last) : Ancestry h f (f :: frames) last

/-- Every parent is older than its children. -/
def Aged (h : Heap) : Prop :=
  ∀ {f g : FrameId}, h.parent? f = some g → g < f

/-- The room for a chain is enough: with each step it goes to an older frame. -/
theorem exists_ancestry (ha : h.Aged) {room : Nat} (hf : f < room) :
    ∃ last, h.Ancestry f (h.chainWithin room f) last := by
  induction room generalizing f with
  | zero => exact absurd hf (Nat.not_lt_zero f)
  | succ room ih =>
      rw [chainWithin]
      split
      · next hn => exact ⟨f, .last hn⟩
      · next g hg =>
          have hlt : g < room := Nat.lt_of_lt_of_le (ha hg) (Nat.le_of_lt_succ hf)
          obtain ⟨last, hlast⟩ := ih hlt
          exact ⟨last, .parent hg hlast⟩

namespace Ancestry
variable {frames : List FrameId} {last : FrameId}

theorem parentless (hf : h.Ancestry f frames last) : h.parent? last = none := by
  induction hf with
  | last hn => exact hn
  | parent _ _ ih => exact ih

theorem last_mem (hf : h.Ancestry f frames last) : last ∈ frames := by
  induction hf with
  | last _ => exact List.mem_singleton.mpr rfl
  | parent _ _ ih => exact List.mem_cons_of_mem _ ih

theorem le (ha : h.Aged) (hf : h.Ancestry f frames last) : ∀ g ∈ frames, g ≤ f := by
  induction hf with
  | last _ => simp
  | parent hg _ ih =>
      refine List.forall_mem_cons.mpr ⟨Nat.le_refl _, ?_⟩
      intro k hk
      exact Nat.le_trans (ih k hk) (Nat.le_of_lt (ha hg))

/-- Each frame is older than all in front of it, so none comes twice. -/
theorem descending (ha : h.Aged) (hf : h.Ancestry f frames last) : frames.Pairwise (· > ·) := by
  induction hf with
  | last _ => exact List.pairwise_singleton _ _
  | parent hg hr ih =>
      refine List.pairwise_cons.mpr ⟨?_, ih⟩
      intro k hk
      exact Nat.lt_of_le_of_lt (hr.le ha k hk) (ha hg)

end Ancestry

end Heap

/-- Names are looked up along a chain that ends in the root or in the frame of an object. -/
theorem Point.Sound.chain {p : Point} (hs : p.Sound) {f : FrameId} (hf : f < p.heap.size) :
    ∃ last, p.heap.Ancestry f (p.heap.chain f) last ∧ (p.heap.chain f).Pairwise (· > ·) ∧
      (last = Heap.rootFrame ∨ ∃ o ∈ p.objects, o.frame = last) := by
  have ha : p.heap.Aged := hs.older
  obtain ⟨last, hlast⟩ := Heap.exists_ancestry ha hf
  have hlt : last < p.heap.size := Nat.lt_of_le_of_lt (hlast.le ha last hlast.last_mem) hf
  exact ⟨last, hlast, hlast.descending ha, hs.parentless hlt hlast.parentless⟩

section Initial

theorem Heap.AllBound.addNative {P : Value → Prop} {h : Heap} (ha : h.AllBound P) {name : String}
    {native : Native} (hv : ∀ ident, P (.function { ident, name, body := .native native }))
    (frame : FrameId) : (h.addNative frame name native).AllBound P :=
  AllBound.bind (h := (h.createFunction name (.native native)).2) ha (hv h.functions) frame name

/-- What holds of native functions, of texts and of the sample objects holds of all that programs find. -/
theorem Heap.allBound_initial {P : Value → Prop}
    (hnative : ∀ ident name native, P (.function { ident, name, body := .native native }))
    (hstring : ∀ text, P (.string text)) (hobject : P (.object sampleObject))
    (hprototype : P (.object samplePrototype)) : Heap.initial.AllBound P := by
  have hempty : AllBound P { frames := #[{}, {}, {}] } := by
    intro f entry he
    rcases f with _ | _ | _ | f <;> cases he
  have h := hempty
  replace h := h.addNative (hnative · "debug" .debug) rootFrame
  replace h := h.addNative (hnative · "print" .print) rootFrame
  replace h := h.addNative (hnative · "log" .log) rootFrame
  replace h := h.addNative (hnative · "list" .list) rootFrame
  replace h := h.addNative (hnative · "range" .range) rootFrame
  replace h := h.bind (hstring "variable") rootFrame "variable"
  replace h := h.addNative (hnative · "function" .function) rootFrame
  replace h := h.bind (hstring "inherited_property") samplePrototype.frame "inherited_property"
  replace h := h.addNative (hnative · "inherited_method" .method) samplePrototype.frame
  replace h := h.bind hprototype sampleObject.frame prototypeName
  replace h := h.bind (hstring "property") sampleObject.frame "property"
  replace h := h.addNative (hnative · "method" .method) sampleObject.frame
  exact h.bind hobject rootFrame "object"

theorem Heap.size_initial : Heap.initial.size = 3 :=
  rfl

theorem Heap.parent?_initial (f : FrameId) : Heap.initial.parent? f = none := by
  simp only [Heap.initial, Heap.addNative, Heap.parent?_bind]
  rcases f with _ | _ | _ | f <;> rfl

/-- The point at which programs start. -/
def Point.initial : Point :=
  { State.initial with objects := [Heap.sampleObject, Heap.samplePrototype] }

theorem Point.sound_initial : Point.initial.Sound where
  older {f g} hg := by
    have hnone : Point.initial.heap.parent? f = none := Heap.parent?_initial f
    rw [hnone] at hg
    cases hg
  parentless {f} hf _ := by
    have hlt : f < 3 := hf
    rcases f with _ | _ | _ | f
    · exact .inl rfl
    · exact .inr ⟨Heap.samplePrototype, by simp [initial], rfl⟩
    · exact .inr ⟨Heap.sampleObject, by simp [initial], rfl⟩
    · exact absurd hlt (by simp)
  object {o} ho := by
    refine ⟨?_, Heap.parent?_initial o.frame⟩
    change o.frame < Heap.initial.size
    rw [Heap.size_initial]
    simp only [initial, List.mem_cons, List.not_mem_nil, or_false] at ho
    rcases ho with rfl | rfl <;> decide
  binding := by
    refine Heap.allBound_initial ?_ ?_ ?_ ?_
    · intro ident name native
      exact Value.all_function.mpr nofun
    · intro text
      exact (Value.all_self rfl).mpr trivial
    · exact Value.all_object.mpr (by simp [Has, initial])
    · exact Value.all_object.mpr (by simp [Has, initial])
  scope := by
    change Heap.rootFrame < Heap.initial.size
    decide

end Initial

end ProtoScript
