import ProtoScript.Eval.Basic
import ProtoScript.Value.Inspect

/-!
# Native functions

The functions that every program starts with, and the root frame that holds them. Called as a method,
a native function gets the object as its first argument.
-/

namespace ProtoScript

namespace Eval

/-- The one argument of a native function. -/
def onlyArgument (name : String) : List Value → Eval Value
  | [v] => return v
  | arguments => raise (.arity name 1 arguments.length)

/-- The integer that a bound of a range must be. -/
def rangeBound : Value → Eval Int
  | .int n => return n
  | v => do
      discard (kind v)
      raise (.rangeKind (← display v))

/-- The integers from `first` up to but not including `stop`. -/
def integersFrom (first stop : Int) : List Value :=
  (List.range (stop - first).toNat).map fun (offset : Nat) => .int (first + offset)

/-- Calls a native function. -/
def callNative (native : Native) (arguments : List Value) : Eval Value :=
  match native with
  | .debug => do
      let v ← onlyArgument "debug" arguments
      write (.console (← ofExcept (inspect v)))
      return .nil
  | .print => do
      let v ← onlyArgument "print" arguments
      write (.console (← display v))
      return .nil
  | .log => do
      let v ← onlyArgument "log" arguments
      write (.console ("log: " ++ (← display v)))
      return v
  | .list | .function => return .list arguments
  | .method => return .list (arguments.drop 1)
  | .range =>
      match arguments with
      | [first, stop] => do
          let low ← rangeBound first
          let high ← rangeBound stop
          if high < low then
            raise (.rangeOrder (← display first))
          return .list (integersFrom low high)
      | _ => raise (.arity "range" 2 arguments.length)

end Eval

namespace Heap

/-- Binds a new native function in a frame. -/
def addNative (h : Heap) (frame : FrameId) (name : String) (native : Native) : Heap :=
  let (function, h) := h.createFunction name (.native native)
  h.bind frame name (.function function)

/-- The names that the root frame starts with. -/
def rootNames : List String :=
  ["debug", "print", "log", "list", "range", "variable", "function", "object"]

/-- The frame that a program starts in. -/
def rootFrame : FrameId :=
  0

/-- The object that every program can play with, and the prototype of it. -/
def sampleObject : Object :=
  { name := some "Object", frame := 2 }

/-- The prototype of the sample object. -/
def samplePrototype : Object :=
  { name := some "Prototype", frame := 1 }

/-- The heap that a program starts with: the root frame, the sample object and its prototype. -/
def initial : Heap :=
  let h : Heap := { frames := #[{}, {}, {}] }
  let h := h.addNative rootFrame "debug" .debug
  let h := h.addNative rootFrame "print" .print
  let h := h.addNative rootFrame "log" .log
  let h := h.addNative rootFrame "list" .list
  let h := h.addNative rootFrame "range" .range
  let h := h.bind rootFrame "variable" (.string "variable")
  let h := h.addNative rootFrame "function" .function
  let h := h.bind samplePrototype.frame "inherited_property" (.string "inherited_property")
  let h := h.addNative samplePrototype.frame "inherited_method" .method
  let h := h.bind sampleObject.frame prototypeName (.object samplePrototype)
  let h := h.bind sampleObject.frame "property" (.string "property")
  let h := h.addNative sampleObject.frame "method" .method
  h.bind rootFrame "object" (.object sampleObject)

end Heap

/-- The state that a program starts in. -/
def State.initial : State :=
  { heap := Heap.initial, scope := Heap.rootFrame }

end ProtoScript
