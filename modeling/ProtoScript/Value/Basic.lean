import ProtoScript.Table
import ProtoScript.Tree.Basic

/-!
# Values

What expressions evaluate to. Lists are plain data. Functions and objects have an identity: two of them
are the same only if one act created both. The members of an object live in a frame of its own, and a
user function remembers the frame it was defined in.
-/

namespace ProtoScript

/-- The number of a frame in the heap. -/
abbrev FrameId := Nat

/-- Functions that every program can use. -/
inductive Native
  | debug
  | print
  | log
  | list
  | range
  | function
  | method
  deriving DecidableEq, Repr

/-- What a function does when it is called. -/
inductive Body
  | native (native : Native)
  | closure (definition : Definition) (scope : FrameId)

/-- A function. `ident` tells it apart from every other function. -/
structure Function where
  ident : Nat
  name : String
  body : Body

/-- An object, known by the frame that holds its members. -/
structure Object where
  name : Option String
  frame : FrameId
  deriving DecidableEq, Repr

/-- Values of the language. -/
inductive Value
  | nil
  | bool (value : Bool)
  | int (value : Int)
  | decimal (value : Decimal)
  | character (text : String)
  | string (text : String)
  | list (items : List Value)
  | function (function : Function)
  | object (object : Object)
  /-- Something that a host program slipped in and that has no kind. -/
  | foreign

instance : Inhabited Value := ⟨.nil⟩

/-- The value that a literal denotes. -/
def Value.ofLiteral : Literal → Value
  | .nil => .nil
  | .bool value => .bool value
  | .int value => .int value
  | .decimal value => .decimal value
  | .character text => .character text
  | .string text => .string text

/-- The kinds of values. -/
inductive Kind
  | nil
  | boolean
  | integer
  | decimal
  | character
  | string
  | list
  | function
  | object
  deriving DecidableEq, Repr

/-- The name of a kind. -/
def Kind.name : Kind → String
  | .nil => "nil"
  | .boolean => "boolean"
  | .integer => "integer"
  | .decimal => "decimal"
  | .character => "character"
  | .string => "string"
  | .list => "list"
  | .function => "function"
  | .object => "object"

/-- The kind of a value, if it has one. -/
def Value.kind? : Value → Option Kind
  | .nil => some .nil
  | .bool _ => some .boolean
  | .int _ => some .integer
  | .decimal _ => some .decimal
  | .character _ => some .character
  | .string _ => some .string
  | .list _ => some .list
  | .function _ => some .function
  | .object _ => some .object
  | .foreign => none

/-- An object's name, if it is not empty. -/
def Object.properName? (o : Object) : Option String :=
  o.name.filter (· ≠ "")

/-- How messages and traces call an object. -/
def Object.title (o : Object) : String :=
  o.properName?.getD "anonymous object"

end ProtoScript
