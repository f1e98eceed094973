import ProtoScript.Decimal.Text
import ProtoScript.Eval.Basic

/-!
# Operators on values

Arithmetic takes two integers or two decimals, and breaks down where decimals have their limits; a plus with
a string on either side joins texts.
Comparison takes two numbers or two texts of the same kind. Nothing is converted.
-/

namespace ProtoScript.Eval

/-- The kinds that have an order. -/
def orderedKinds : List Kind :=
  [.integer, .decimal, .string, .character]

/-- Whether a comparison holds, given whether the left operand is less and whether it is at most
the right one. -/
def relationHolds (operator : Operator) (less atMost : Bool) : Bool :=
  match operator with
  | .less => less
  | .lessEqual => atMost
  | .greater => !atMost
  | .greaterEqual => !less
  | _ => false

/-- Compares two values of one kind. -/
def relate (operator : Operator) : Value → Value → Bool
  | .int a, .int b => relationHolds operator (a < b) (a ≤ b)
  | .decimal a, .decimal b => relationHolds operator (a.less b) (a.atMost b)
  | .character a, .character b => relationHolds operator (a < b) (a ≤ b)
  | .string a, .string b => relationHolds operator (a < b) (a ≤ b)
  | _, _ => false

/-- Compares two values. -/
def compare (operator : Operator) (left right : Value) : Eval Value := do
  expectKind orderedKinds left
  let leftKind ← kind left
  let rightKind ← kind right
  if leftKind ≠ rightKind then
    raise (.incomparable leftKind rightKind operator)
  return .bool (relate operator left right)

/-- Two numbers of one kind. -/
inductive Numbers
  | integers (left right : Int)
  | decimals (left right : Decimal)

/-- The two numbers that the operands must be. -/
def numbers (operator : Operator) (left right : Value) : Eval Numbers := do
  expectKind [.integer, .decimal] left
  match left, right with
  | .int a, .int b => return .integers a b
  | .decimal a, .decimal b => return .decimals a b
  | _, _ => raise (.inapplicable operator (← kind left) (← kind right))

/-- The decimal that arithmetic gives, unless it is beyond the limits of decimals. -/
def ofDecimal : Except Decimal.Limit Decimal → Eval Value
  | .ok d => return .decimal d
  | .error limit => throw (.breakdown (.limit limit))

/-- Whether a value is a string. -/
def isString (v : Value) : Eval Bool :=
  return (← kind v) = .string

/-- `left + right` -/
def add (left right : Value) : Eval Value := do
  let leftString ← isString left
  let joins ← if leftString then pure true else isString right
  if joins then
    let leftText ← display left
    let rightText ← display right
    return .string (leftText ++ rightText)
  else
    match ← numbers .add left right with
    | .integers a b => return .int (a + b)
    | .decimals a b => ofDecimal (a.add b)

/-- `left - right` -/
def subtract (left right : Value) : Eval Value := do
  match ← numbers .subtract left right with
  | .integers a b => return .int (a - b)
  | .decimals a b => ofDecimal (a.subtract b)

/-- `left * right` -/
def multiply (left right : Value) : Eval Value := do
  match ← numbers .multiply left right with
  | .integers a b => return .int (a * b)
  | .decimals a b => ofDecimal (a.multiply b)

/-- `left / right`. Integers are divided toward zero. -/
def divide (left right : Value) : Eval Value := do
  match ← numbers .divide left right with
  | .integers a b =>
      if b = 0 then
        let dividend ← ofExcept (displayInt a)
        raise (.divisionByZero (dividend ++ " / " ++ Numeral.ofInt b))
      return .int (a.tdiv b)
  | .decimals a b =>
      if b.coefficient = 0 then
        raise (.divisionByZero (a.scientific ++ " / " ++ b.scientific))
      ofDecimal (a.divide b)

/-- Applies an operator to the values of both its operands. -/
def applyOperator (operator : Operator) (left right : Value) : Eval Value :=
  match operator with
  | .equal => do return .bool (← ofExcept (left.equals right))
  | .unequal => do return .bool !(← ofExcept (left.equals right))
  | .less | .lessEqual | .greater | .greaterEqual => compare operator left right
  | .add => add left right
  | .subtract => subtract left right
  | .multiply => multiply left right
  | .divide => divide left right
  | .and | .or | .unknown _ => raise (.unknownOperator operator)

end ProtoScript.Eval
