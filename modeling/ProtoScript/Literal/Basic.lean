import ProtoScript.Decimal.Basic

/-!
# Literals

The values that can be written directly in a program.
-/

namespace ProtoScript

/-- A value written in a program. A character is kept as text, of one character when it was read from
a source. -/
inductive Literal
  | nil
  | bool (value : Bool)
  | int (value : Int)
  | decimal (value : Decimal)
  | character (text : String)
  | string (text : String)
  deriving DecidableEq, Repr, Inhabited

end ProtoScript
