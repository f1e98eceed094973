import ProtoScript.Eval.Native
import ProtoScript.Eval.Operators

/-!
# Evaluating programs

Expressions evaluate to values. Statements end in a completion, which says whether a RETURN is on its
way out; only a call of a user function ends that way. Evaluation follows the tree. Calls leave the
tree, so they go through a parameter, which is tied to evaluation itself up to a depth of calls.
-/

namespace ProtoScript.Eval

/-- How a statement ends. -/
inductive Completion
  | normal (value : Value)
  /-- A RETURN was met, and `origin` is that statement. -/
  | returned (value : Value) (origin : Stmt)

/-- What evaluation needs to know from outside the tree: how calls are traced, and how they are made. -/
structure Context where
  trace : StepKind → String → List Value → Eval Unit
  invoke : Function → List Value → Eval Value

/-- Runs `step` on each item up to the first RETURN. -/
def forEach (step : Value → Eval Completion) : List Value → Eval Completion
  | [] => return .normal .nil
  | item :: rest => do
      match ← step item with
      | .returned value origin => return .returned value origin
      | .normal _ => forEach step rest

/-- Creates a function in the present frame. -/
def defineFunction (d : Definition) : Eval Value := do
  let function ← createFunction d.name (.closure d (← get).scope)
  define d.name (.function function)
  return .function function

/-- Creates functions in the present frame. -/
def defineFunctions : List Definition → Eval Unit
  | [] => return
  | d :: rest => do
      discard (blame (.stmt (.define d)) (defineFunction d))
      defineFunctions rest

/-- The function that a call by name calls. -/
def calledFunction (name : String) : Eval Function := do
  match ← resolve name with
  | some (.function function) => return function
  | some _ => raise (.notFunction name)
  | none => raise (.undefinedFunction name)

/-- The function that a method call calls. -/
def calledMethod (o : Object) (name : String) : Eval Function := do
  match (← get).heap.lookup o name with
  | some (.function function) => return function
  | some _ => raise (.notMethod name)
  | none => raise (.noMethod o.title name)

mutual

/-- The value of an expression. -/
def evalExpr (cx : Context) (e : Expr) : Eval Value :=
  blame (.expr e) <|
    match e with
    | .literal value => return .ofLiteral value
    | .group inner => evalExpr cx inner
    | .binary operator left right => do
        let leftValue ← evalExpr cx left
        match operator with
        | .and => do
            if ← expectBool leftValue then
              return .bool (← expectBool (← evalExpr cx right))
            else return leftValue
        | .or => do
            if ← expectBool leftValue then return leftValue
            else return .bool (← expectBool (← evalExpr cx right))
        | _ => do
            let rightValue ← evalExpr cx right
            applyOperator operator leftValue rightValue
    | .name name => do
        match ← resolve name with
        | some value => return value
        | none => raise (.undefined name)
    | .property receiver name => do
        let o ← expectObject (← evalExpr cx receiver)
        match (← get).heap.lookup o name with
        | some value => return value
        | none => raise (.noProperty o.title name)
    | .call name arguments => do
        let function ← calledFunction name
        let values ← evalAll cx arguments
        cx.trace .call name values
        cx.invoke function values
    | .method receiver name arguments => do
        let o ← expectObject (← evalExpr cx receiver)
        let function ← calledMethod o name
        let values ← evalAll cx arguments
        cx.trace .method (o.title ++ "." ++ name) values
        cx.invoke function (.object o :: values)
    | .object name fields methods => do
        let frame ← allocate none
        within frame do
          declareAll cx fields
          defineFunctions methods
        let value := Value.object { name, frame }
        if let some name := name then
          define name value
        return value

/-- The values of several expressions, in order. -/
def evalAll (cx : Context) : List Expr → Eval (List Value)
  | [] => return []
  | e :: rest => do
      let value ← evalExpr cx e
      return value :: (← evalAll cx rest)

/-- The value of an optional expression. -/
def evalOption (cx : Context) : Option Expr → Eval Value
  | none => return .nil
  | some e => evalExpr cx e

/-- Declares a variable in the present frame. -/
def declare (cx : Context) : Declaration → Eval Value
  | { name, value } => do
      let value ← evalOption cx value
      define name value
      return value

/-- Declares the fields of an object in the present frame. -/
def declareAll (cx : Context) : List Declaration → Eval Unit
  | [] => return
  | d :: rest => do
      discard (blame (.stmt (.declare d)) (declare cx d))
      declareAll cx rest

/-- Executes a statement. -/
def execStmt (cx : Context) (statement : Stmt) : Eval Completion :=
  blame (.stmt statement) <|
    match statement with
    | .declare d => return .normal (← declare cx d)
    | .define d => return .normal (← defineFunction d)
    | .branch condition thenBody elseBody => do
        if ← expectBool (← evalExpr cx condition) then
          within (← openFrame) (execBlock cx .nil thenBody)
        else
          within (← openFrame) (execBlock cx .nil elseBody)
    | .loop name iterable body => do
        let items ← expectList (← evalExpr cx iterable)
        forEach (fun item => do
          let frame ← openFrame
          defineIn frame name item
          within frame (execBlock cx .nil body)) items
    | .ret value => return .returned (← evalOption cx value) (.ret value)
    | .perform expression => return .normal (← evalExpr cx expression)
    | .assign target value => do
        let result ← evalExpr cx value
        match target with
        | .name name => assign name result
        | .property receiver name => do
            let o ← expectObject (← evalExpr cx receiver)
            setMember o name result
        | _ => raise (.notTarget target.form)
        return .normal result

/-- Executes statements in the present frame up to the first RETURN. A block without RETURN has the
value of its last statement, or `last` if it is empty. -/
def execBlock (cx : Context) (last : Value) : List Stmt → Eval Completion
  | [] => return .normal last
  | first :: rest => do
      match ← execStmt cx first with
      | .returned value origin => return .returned value origin
      | .normal value => execBlock cx value rest

end

/-- Binds the parameters of a function in a frame, in order. -/
def bindParameters (frame : FrameId) : List (String × Value) → Eval Unit
  | [] => return
  | (name, value) :: rest => do
      defineIn frame name value
      bindParameters frame rest

/-- Calls a function, with at most `depth` calls of user functions inside each other. A body that ends
without RETURN gives NIL. -/
def invoke (tracing : Tracing) : (depth : Nat) → Function → List Value → Eval Value
  | _, { body := .native native, .. }, arguments => callNative native arguments
  | 0, { body := .closure .., .. }, _ => throw .endless
  | depth + 1, { body := .closure d scope, .. }, arguments => do
      if arguments.length ≠ d.parameters.length then
        raiseAt (.stmt (.define d)) (.arity d.name d.parameters.length arguments.length)
      let frame ← allocate (some scope)
      bindParameters frame (d.parameters.zip arguments)
      match ← within frame
          (execBlock { trace := trace tracing, invoke := invoke tracing depth } .nil d.body) with
      | .returned value _ => return value
      | .normal _ => return .nil

/-- How many calls of user functions may be inside each other. -/
def maxDepth : Nat :=
  1000

/-- Evaluation with calls up to the greatest depth. -/
def Context.standard (tracing : Tracing) : Context :=
  { trace := Eval.trace tracing, invoke := Eval.invoke tracing maxDepth }

/-- The value of a statement outside every function. -/
def complete : Completion → Eval Value
  | .normal value => return value
  | .returned _ origin => raiseAt (.stmt origin) .strayReturn

/-- Executes the statements of a program; the value of the last is the value of the program. -/
def runStatements (cx : Context) (last : Value) : List Stmt → Eval Value
  | [] => return last
  | first :: rest => do
      let value ← complete (← execStmt cx first)
      runStatements cx value rest

/-- The value of a program, a statement or an expression in the present frame. -/
def run (cx : Context) : Node → Eval Value
  | .source statements => blame (.source statements) (runStatements cx .nil statements)
  | .stmt statement => do complete (← execStmt cx statement)
  | .expr expression => evalExpr cx expression

end ProtoScript.Eval
