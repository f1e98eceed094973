import ProtoScript.Decimal.Arithmetic
import ProtoScript.Literal.Number
import ProtoScript.Text.Quoted
import ProtoScript.Text.Template
import ProtoScript.Value.Basic

/-!
# Faults

What can end an evaluation before its value. An error of the language has a cause and, once it has
left the place where it arose, the node to blame. A breakdown is a failure of the interpreter itself
and has a title and a text only.
-/

namespace ProtoScript

/-- Why a program fails. -/
inductive Cause
  | alreadyDefined (name : String)
  | undefined (name : String)
  | undefinedFunction (name : String)
  | notFunction (name : String)
  | noProperty (owner name : String)
  | noMethod (owner name : String)
  | notMethod (name : String)
  | arity (name : String) (expected given : Nat)
  | wrongKind (expected : List Kind) (kind : Kind) (shown : String)
  | incomparable (left right : Kind) (operator : Operator)
  | inapplicable (operator : Operator) (left right : Kind)
  | divisionByZero (shown : String)
  | unknownOperator (operator : Operator)
  | notTarget (form : String)
  | strayReturn
  | rangeKind (shown : String)
  | rangeOrder (shown : String)
  deriving DecidableEq, Repr

/-- The classes of causes. -/
inductive Category
  | general
  | duplicateBinding
  | undefinedVariable
  | undefinedProperty
  | arityMismatch
  | typeMismatch
  deriving DecidableEq, Repr

namespace Cause

/-- The class of a cause. -/
def category : Cause → Category
  | alreadyDefined _ => .duplicateBinding
  | undefined _ | undefinedFunction _ => .undefinedVariable
  | noProperty .. | noMethod .. => .undefinedProperty
  | arity .. => .arityMismatch
  | notFunction _ | notMethod _ | wrongKind .. | incomparable .. | inapplicable .. | rangeKind _ =>
      .typeMismatch
  | divisionByZero _ | unknownOperator _ | notTarget _ | strayReturn | rangeOrder _ => .general

/-- The message of a cause. The name of an object is part of the template. -/
def message : Cause → Text.Message
  | alreadyDefined name => .one "'{}' is already defined in this scope" name
  | undefined name => .one "'{}' is not defined" name
  | undefinedFunction name => .one "function '{}' is not defined" name
  | notFunction name => .one "'{}' is not a function" name
  | noProperty owner name => .one ("'{}' is not a property of " ++ owner) name
  | noMethod owner name => .one ("'{}' is not a method of " ++ owner) name
  | notMethod name => .one "'{}' is not a method" name
  | arity name expected given =>
      .one ("'{}' expects " ++ Numeral.ofNat expected ++ " argument(s), got "
        ++ Numeral.ofNat given) name
  | wrongKind expected kind shown =>
      .one ("expected " ++ " or ".intercalate (expected.map Kind.name) ++ ", got " ++ kind.name
        ++ " '{}'") shown
  | incomparable left right operator =>
      .one ("cannot compare " ++ left.name ++ " with " ++ right.name ++ " using '{}'") operator.symbol
  | inapplicable operator left right =>
      .one ("cannot apply '{}' to " ++ left.name ++ " and " ++ right.name) operator.symbol
  | divisionByZero shown => .one "division by zero in '{}'" shown
  | unknownOperator operator => .one "unknown operator '{}'" operator.symbol
  | notTarget form => .one "cannot assign to '{}'" form
  | strayReturn => .one "RETURN outside of a function" ""
  | rangeKind shown => .one "range expects integers, got '{}'" shown
  | rangeOrder shown => .one "range start '{}' is greater than its end" shown

end Cause

/-- An error of the language, with the node to blame once it is known. -/
structure EvalError where
  cause : Cause
  node : Option Node := none

/-- The error with `node` to blame, unless there is one already. -/
def EvalError.orBlame (e : EvalError) (node : Node) : EvalError :=
  { e with node := some (e.node.getD node) }

/-- A failure of the interpreter itself. -/
inductive Breakdown
  /-- An integer is too long to be turned into text. -/
  | digitLimit
  /-- The result of arithmetic is beyond the limits of decimals. -/
  | limit (limit : Decimal.Limit)
  /-- A number token has a text that no program could use. -/
  | unusable (reason : Literal.Unusable)
  /-- A value has no kind. -/
  | notAValue
  /-- A message cannot be written. -/
  | defect (defect : Text.Defect)
  /-- A character was asked for at the end of the source. -/
  | sourceEnd
  /-- A result was asked for and there is none. -/
  | noResult
  /-- The name of a file holds a zero character, which no file system takes. -/
  | zeroInPath
  /-- A diagnosis was asked for where no place is known. -/
  | unlocated
  /-- A start rule does not exist. -/
  | unknownRule (name : String)
  /-- Rules of the grammar are nested beyond the bound. -/
  | tooDeep
  /-- Any other failure of a host program. -/
  | host (title text : String)
  deriving DecidableEq, Repr

/-- The title under which a limit of arithmetic is reported. -/
def Decimal.Limit.title : Decimal.Limit → String
  | .precision => "ValueError"
  | .overflow => "Overflow"
  | .length => "InvalidOperation"

/-- The text with which a limit of arithmetic is reported. -/
def Decimal.Limit.text : Decimal.Limit → String
  | .precision => "valid range for prec is [1, MAX_PREC]"
  | .overflow => "[<class 'decimal.Overflow'>]"
  | .length => "[<class 'decimal.InvalidOperation'>]"

/-- The title under which a number without use is reported. -/
def Literal.Unusable.title : Literal.Unusable → String
  | .tooManyDigits _ | .integer _ => "ValueError"
  | .decimal | .unrepresentable => "InvalidOperation"
  | .special => "TypeError"

/-- The text with which a number without use is reported. At most two hundred characters of the quoted
number are shown. -/
def Literal.Unusable.text : Literal.Unusable → String
  | .tooManyDigits count =>
      "Exceeds the limit (4300 digits) for integer string conversion: value has "
        ++ Numeral.ofNat count
        ++ " digits; use sys.set_int_max_str_digits() to increase the limit"
  | .integer text =>
      "invalid literal for int() with base 10: "
        ++ String.ofList ((Text.quoted text).toList.take 200)
  | .decimal => "[<class 'decimal.ConversionSyntax'>]"
  | .unrepresentable => "[<class 'decimal.InvalidOperation'>]"
  | .special => "bad operand type for abs(): 'str'"

/-- The title under which a defect of a message is reported. -/
def Text.Defect.title : Text.Defect → String
  | .named _ => "KeyError"
  | .unfilled _ => "IndexError"
  | _ => "ValueError"

/-- The text with which a defect of a message is reported. -/
def Text.Defect.text : Text.Defect → String
  | .loneOpen => "Single '\x7b' encountered in format string"
  | .loneClose => "Single '\x7d' encountered in format string"
  | .openSlot => "expected '\x7d' before end of string"
  | .nestedSlot => "unexpected '\x7b' in field name"
  | .noConversion => "end of string while looking for conversion specifier"
  | .longConversion => "expected ':' after conversion specifier"
  | .openFormat => "unmatched '\x7b' in format spec"
  | .largeNumber => "Too many decimal digits in format string"
  | .lateNumber =>
      "cannot switch from automatic field numbering to manual field specification"
  | .missingNumber =>
      "cannot switch from manual field specification to automatic field numbering"
  | .named name => Text.quoted name
  | .unfilled slot =>
      "Replacement index " ++ Numeral.ofNat slot ++ " out of range for positional args tuple"
  | .unsupported => "unsupported slot"

namespace Breakdown

/-- The title under which a breakdown is reported. -/
def title : Breakdown → String
  | digitLimit | notAValue | zeroInPath | unknownRule _ => "ValueError"
  | limit reason => reason.title
  | unusable reason => reason.title
  | defect reason => reason.title
  | sourceEnd | noResult => "IndexError"
  | unlocated => "TypeError"
  | tooDeep => "RuntimeError"
  | host title _ => title

/-- The text with which a breakdown is reported. -/
def text : Breakdown → String
  | digitLimit =>
      "Exceeds the limit (4300 digits) for integer string conversion; "
        ++ "use sys.set_int_max_str_digits() to increase the limit"
  | limit reason => reason.text
  | unusable reason => reason.text
  | notAValue => "not a runtime value: ()"
  | defect reason => reason.text
  | sourceEnd => "string index out of range"
  | noResult => "pop from empty list"
  | zeroInPath => "embedded null byte"
  | unlocated => "'<' not supported between instances of 'int' and 'NoneType'"
  | unknownRule name => "unknown rule '" ++ name ++ "'"
  | tooDeep => "rules are nested too deeply"
  | host _ text => text

end Breakdown

/-- What ends an evaluation before its value. -/
inductive Fault
  | error (error : EvalError)
  /-- Calls, or objects inside themselves, are nested without end. -/
  | endless
  | breakdown (breakdown : Breakdown)

/-- The fault that an error is. An error whose message cannot be written is a breakdown. -/
def Fault.ofError (e : EvalError) : Fault :=
  match e.cause.message.defect? with
  | none => .error e
  | some defect => .breakdown (.defect defect)

/-- The kind of a value; to ask a foreign one for its kind is a breakdown. -/
def Value.kind (v : Value) : Except Fault Kind :=
  match v.kind? with
  | some kind => .ok kind
  | none => .error (.breakdown .notAValue)

end ProtoScript
