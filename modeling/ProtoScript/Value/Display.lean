import ProtoScript.Decimal.Text
import ProtoScript.Heap
import ProtoScript.Text.Blank

/-!
# Displayed values

The text that printing a value gives. An object shows its members, but of a member that is itself an
object it shows only the name, so circles of objects do no harm. An object that contains itself through
a list has no finite text.
-/

namespace ProtoScript

/-- The text of an integer, if it is short enough to be written. -/
def displayInt (n : Int) : Except Fault String :=
  if Numeral.writable n then .ok (Numeral.ofInt n) else .error (.breakdown .digitLimit)

mutual

/-- The text of a value, given the text of the objects in it. -/
def displayWith (showObject : Object → Except Fault String) : Value → Except Fault String
  | .nil => .ok "NIL"
  | .bool value => .ok (if value then "TRUE" else "FALSE")
  | .int value => displayInt value
  | .decimal value => .ok value.plain
  | .character text => .ok text
  | .string text => .ok text
  | .list items => do return "[" ++ ", ".intercalate (← displayAllWith showObject items) ++ "]"
  | .function function => .ok ("DEF " ++ function.name ++ "(...) DO ... END")
  | .object object => showObject object
  | .foreign => .ok "()"

/-- The texts of several values. -/
def displayAllWith (showObject : Object → Except Fault String) :
    List Value → Except Fault (List String)
  | [] => .ok []
  | value :: rest => do
      let first ← displayWith showObject value
      return first :: (← displayAllWith showObject rest)

end

/-- The text of a member of an object. -/
def displayMember (showObject : Object → Except Fault String) (name : String) :
    Value → Except Fault String
  | .function _ => .ok ("DEF " ++ name ++ "(...) DO ... END;")
  | .object member =>
      .ok (Text.trimEnd ("LET " ++ name ++ " = OBJECT " ++ member.name.getD "") ++ ";")
  | value => do return "LET " ++ name ++ " = " ++ (← displayWith showObject value) ++ ";"

/-- The first words of an object's text. -/
def Object.header (o : Object) : String :=
  match o.properName? with
  | some name => "OBJECT " ++ name ++ " DO"
  | none => "OBJECT DO"

/-- The text of an object inside the objects of `path`. There is none if it is one of them. The objects of
a path have different frames, so there is `room` enough for one object more than there are frames. -/
def displayObject (h : Heap) : (room : Nat) → (path : List FrameId) → Object → Except Fault String
  | 0, _, _ => .error .endless
  | room + 1, path, o =>
      if path.contains o.frame then .error .endless
      else do
        let members ← (h.bindings o.frame).entries.mapM fun member =>
          displayMember (displayObject h room (o.frame :: path)) member.1 member.2
        return " ".intercalate (o.header :: members ++ ["END"])

/-- The text of a value. -/
def display (h : Heap) (v : Value) : Except Fault String :=
  displayWith (displayObject h (h.size + 1) []) v

end ProtoScript
