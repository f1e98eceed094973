import ProtoScript.Text.Quoted
import ProtoScript.Value.Display

/-!
# Inspected values

The form in which debugging shows a value: what it is made of, with texts in quotes. Functions and
objects show their names only.
-/

namespace ProtoScript

/-- A name in quotes, or the word for none. -/
def inspectName : Option String → String
  | some name => Text.quoted name
  | none => "None"

/-- Plain data in its wrapper. -/
def wrapped (content : String) : String :=
  "Primitive(value=" ++ content ++ ")"

mutual

/-- The inspected form of a value. -/
def inspect : Value → Except Fault String
  | .nil => .ok (wrapped "None")
  | .bool value => .ok (wrapped (if value then "True" else "False"))
  | .int value => wrapped <$> displayInt value
  | .decimal value => .ok (wrapped ("Decimal('" ++ value.scientific ++ "')"))
  | .character text => .ok (wrapped ("Character(" ++ Text.quoted text ++ ")"))
  | .string text => .ok (wrapped (Text.quoted text))
  | .list items => do return wrapped ("[" ++ ", ".intercalate (← inspectAll items) ++ "]")
  | .function function => .ok ("Function(name=" ++ Text.quoted function.name ++ ")")
  | .object object => .ok ("ObjectValue(name=" ++ inspectName object.name ++ ")")
  | .foreign => .ok (wrapped "()")

/-- The inspected forms of several values. -/
def inspectAll : List Value → Except Fault (List String)
  | [] => .ok []
  | value :: rest => do
      let first ← inspect value
      return first :: (← inspectAll rest)

end

/-- The inspected form of the body of a user function: its name and parameters. -/
def Body.inspect? : Body → Option String
  | .native _ => none
  | .closure definition _ =>
      some ("Closure(" ++ definition.name ++ "(" ++ ", ".intercalate definition.parameters ++ "))")

/-- The inspected form of frames, nearest first: the names of each, and its parent inside it. -/
def inspectFrames (h : Heap) : List FrameId → String
  | [] => "None"
  | frame :: parents =>
      "Scope([" ++ ", ".intercalate ((h.bindings frame).keys.map Text.quoted) ++ "], parent="
        ++ inspectFrames h parents ++ ")"

/-- The inspected form of a frame. -/
def inspectFrame (h : Heap) (frame : FrameId) : String :=
  inspectFrames h (h.chain frame)

end ProtoScript
