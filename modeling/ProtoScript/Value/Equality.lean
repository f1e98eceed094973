import ProtoScript.Fault

/-!
# Equality of values

Values of different kinds are never equal. Lists are equal element by element, decimals in size and
exponent, functions and objects by identity.
-/

namespace ProtoScript.Value

mutual

/-- Whether two values are equal. -/
def equals : Value → Value → Except Fault Bool
  | .foreign, _ => .error (.breakdown .notAValue)
  | _, .foreign => .error (.breakdown .notAValue)
  | .nil, .nil => .ok true
  | .bool a, .bool b => .ok (a = b)
  | .int a, .int b => .ok (a = b)
  | .decimal a, .decimal b => .ok (a.same b)
  | .character a, .character b => .ok (a = b)
  | .string a, .string b => .ok (a = b)
  | .list as, .list bs => if as.length = bs.length then equalsAll as bs else .ok false
  | .function f, .function g => .ok (f.ident = g.ident)
  | .object o, .object p => .ok (o.frame = p.frame)
  | _, _ => .ok false

/-- Whether two lists agree element by element, up to the first difference. -/
def equalsAll : List Value → List Value → Except Fault Bool
  | a :: as, b :: bs => do
      if ← equals a b then equalsAll as bs else return false
  | _, _ => .ok true

end

end ProtoScript.Value
