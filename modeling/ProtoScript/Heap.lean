import ProtoScript.Fault

/-!
# The heap of frames

A frame binds names to values and may have a parent, in which names are looked up next. Parents are
older than their children, so a chain of parents ends. The members of an object are the bindings of its
own frame, which has no parent; what an object lacks is looked up in its prototype.
-/

namespace ProtoScript

/-- A set of bindings with an optional parent. -/
structure Frame where
  parent : Option FrameId := none
  bindings : Table String Value := {}

instance : Inhabited Frame := ⟨{}⟩

/-- All frames, by number, and how many functions were created so far. -/
structure Heap where
  frames : Array Frame := #[]
  functions : Nat := 0

namespace Heap

instance : Inhabited Heap := ⟨{}⟩

/-- How many frames there are. -/
def size (h : Heap) : Nat :=
  h.frames.size

/-- The parent of a frame. -/
def parent? (h : Heap) (frame : FrameId) : Option FrameId :=
  h.frames[frame]?.bind Frame.parent

/-- The bindings of a frame. -/
def bindings (h : Heap) (frame : FrameId) : Table String Value :=
  (h.frames[frame]?.getD {}).bindings

/-- The value that a frame itself binds to a name. -/
def own? (h : Heap) (frame : FrameId) (name : String) : Option Value :=
  (h.bindings frame).get? name

/-- Whether a frame itself binds a name. -/
def binds (h : Heap) (frame : FrameId) (name : String) : Bool :=
  (h.own? frame name).isSome

/-- A new frame without bindings. -/
def allocate (h : Heap) (parent : Option FrameId) : FrameId × Heap :=
  (h.size, { h with frames := h.frames.push { parent } })

/-- A new function. -/
def createFunction (h : Heap) (name : String) (body : Body) : Function × Heap :=
  ({ ident := h.functions, name, body }, { h with functions := h.functions + 1 })

/-- At most `room` frames from `frame` on, each the parent of the one before. -/
def chainWithin (h : Heap) : (room : Nat) → (frame : FrameId) → List FrameId
  | 0, _ => []
  | room + 1, frame =>
      match h.parent? frame with
      | none => [frame]
      | some parent => frame :: h.chainWithin room parent

/-- The frames in which a name is looked up from `frame`, nearest first. No frame comes twice, so the
heap holds them all. -/
def chain (h : Heap) (frame : FrameId) : List FrameId :=
  h.chainWithin h.size frame

/-- The nearest frame that binds a name. -/
def owner? (h : Heap) (frame : FrameId) (name : String) : Option FrameId :=
  (h.chain frame).find? fun f => h.binds f name

/-- The value of a name as seen from `frame`. -/
def resolve (h : Heap) (frame : FrameId) (name : String) : Option Value :=
  (h.chain frame).findSome? fun f => h.own? f name

/-- Binds a name in a frame, whether or not it is bound there. -/
def bind (h : Heap) (frame : FrameId) (name : String) (value : Value) : Heap :=
  { h with frames := h.frames.modify frame fun f => { f with bindings := f.bindings.set name value } }

@[simp] theorem size_bind (h : Heap) (frame : FrameId) (name : String) (value : Value) :
    (h.bind frame name value).size = h.size := by
  simp [bind, size]

theorem bindings_bind (h : Heap) (frame other : FrameId) (name : String) (value : Value)
    (hf : frame < h.size) :
    (h.bind frame name value).bindings other =
      if other = frame then (h.bindings frame).set name value else h.bindings other := by
  by_cases ho : other = frame
  · subst ho
    simp only [size] at hf
    simp [bind, bindings, hf, Array.getElem_modify]
  · simp [bind, bindings, Array.getElem?_modify, ho, Ne.symm ho]

/-- What is bound is read back. -/
theorem own?_bind_self (h : Heap) (frame : FrameId) (name : String) (value : Value)
    (hf : frame < h.size) : (h.bind frame name value).own? frame name = some value := by
  simp [own?, bindings_bind, hf]

/-- A binding is seen under its name and in its frame alone. -/
theorem own?_bind (h : Heap) (frame other : FrameId) (name otherName : String) (value : Value)
    (hf : frame < h.size) :
    (h.bind frame name value).own? other otherName =
      if other = frame ∧ otherName = name then some value else h.own? other otherName := by
  rw [own?, bindings_bind h frame other name value hf]
  by_cases ho : other = frame
  · subst ho
    by_cases hn : otherName = name
    · simp [hn]
    · simp [hn, own?, Table.get?_set_of_ne hn]
  · simp [ho, own?]

/-- No binding changes a parent. -/
@[simp] theorem parent?_bind (h : Heap) (frame other : FrameId) (name : String) (value : Value) :
    (h.bind frame name value).parent? other = h.parent? other := by
  by_cases ho : frame = other
  · subst ho
    cases hx : h.frames[frame]? <;> simp [bind, parent?, Array.getElem?_modify, hx]
  · simp [bind, parent?, Array.getElem?_modify, ho]

/-- Binds a new name in a frame. The name may be bound in a parent, but not in the frame itself. -/
def define (h : Heap) (frame : FrameId) (name : String) (value : Value) : Except Cause Heap :=
  if h.binds frame name then .error (.alreadyDefined name)
  else .ok (h.bind frame name value)

/-- Binds a name anew in the nearest frame that binds it. -/
def assign (h : Heap) (frame : FrameId) (name : String) (value : Value) : Except Cause Heap :=
  match h.owner? frame name with
  | some owner => .ok (h.bind owner name value)
  | none => .error (.undefined name)

/-- The member that holds an object's prototype. -/
def prototypeName : String :=
  "prototype"

/-- The prototype of an object: its own member of that name, if that is an object. -/
def prototype? (h : Heap) (o : Object) : Option Object :=
  match h.own? o.frame prototypeName with
  | some (.object prototype) => some prototype
  | _ => none

/-- Looks a member up in an object and then along its prototypes, in at most `room` objects. -/
def lookupWithin (h : Heap) (name : String) : (room : Nat) → Object → Option Value
  | 0, _ => none
  | room + 1, o =>
      match h.own? o.frame name with
      | some value => some value
      | none =>
          match h.prototype? o with
          | some prototype => h.lookupWithin name room prototype
          | none => none

/-- The member of an object or of the nearest prototype that has it. Prototypes may form a circle;
after as many objects as there are frames none is new. -/
def lookup (h : Heap) (o : Object) (name : String) : Option Value :=
  h.lookupWithin name h.size o

end Heap

end ProtoScript
