import ProtoScript.Proofs.Eval.Congruence

/-!
# The trail of an error

A second evaluator, in which nobody is blamed. An error keeps the node that it was raised with, if any, and
on its way out it collects the nodes whose visits it leaves. The evaluator of the language is shown to
report the node of the error itself, or else the first node of that trail.
-/

namespace ProtoScript.Eval

/-- A fault on its way out: as it was raised, and the nodes whose visits it has left, innermost first. -/
structure Departure where
  fault : Fault
  visits : List Node := []

/-- The fault as it is reported: an error without a node of its own has the first node that it left. -/
def Departure.settled (d : Departure) : Fault :=
  match d.fault with
  | .error e => .error { e with node := e.node.or d.visits.head? }
  | fault => fault

/-- A step whose errors leave a trail. -/
abbrev Trailing := EStateM Departure State

namespace Trailing

/-- A step in which no node is visited. -/
def lift {α : Type} (step : Eval α) : Trailing α := fun s =>
  match step s with
  | .ok a t => .ok a t
  | .error fault t => .error { fault } t

/-- Visits a node. An error that leaves the visit has the node at the end of its trail. -/
def visit {α : Type} (node : Node) (step : Trailing α) : Trailing α := fun s =>
  match step s with
  | .ok a t => .ok a t
  | .error d t => .error { d with visits := d.visits ++ [node] } t

/-- Runs a step in another frame, and goes back to the present one however the step ends. -/
def within {α : Type} (frame : FrameId) (step : Trailing α) : Trailing α := fun s =>
  match step { s with scope := frame } with
  | .ok a t => .ok a { t with scope := s.scope }
  | .error d t => .error d { t with scope := s.scope }

/-- How calls are traced, and how they are made. -/
structure Context where
  tracing : Tracing
  invoke : Function → List Value → Trailing Value

/-- Runs `step` on each item up to the first RETURN. -/
def forEach (step : Value → Trailing Completion) : List Value → Trailing Completion
  | [] => return .normal .nil
  | item :: rest => do
      match ← step item with
      | .returned value origin => return .returned value origin
      | .normal _ => forEach step rest

/-- Creates functions in the present frame. -/
def defineFunctions : List Definition → Trailing Unit
  | [] => return
  | d :: rest => do
      discard (visit (.stmt (.define d)) (lift (defineFunction d)))
      defineFunctions rest

mutual

/-- The value of an expression. -/
def evalExpr (cx : Context) (e : Expr) : Trailing Value :=
  visit (.expr e) <|
    match e with
    | .literal value => return .ofLiteral value
    | .group inner => evalExpr cx inner
    | .binary operator left right => do
        let leftValue ← evalExpr cx left
        match operator with
        | .and => do
            if ← lift (expectBool leftValue) then
              return .bool (← lift (expectBool (← evalExpr cx right)))
            else return leftValue
        | .or => do
            if ← lift (expectBool leftValue) then return leftValue
            else return .bool (← lift (expectBool (← evalExpr cx right)))
        | _ => do
            let rightValue ← evalExpr cx right
            lift (applyOperator operator leftValue rightValue)
    | .name name => lift do
        match ← resolve name with
        | some value => return value
        | none => raise (.undefined name)
    | .property receiver name => do
        let o ← lift (expectObject (← evalExpr cx receiver))
        lift do
          match (← get).heap.lookup o name with
          | some value => return value
          | none => raise (.noProperty o.title name)
    | .call name arguments => do
        let function ← lift (calledFunction name)
        let values ← evalAll cx arguments
        lift (trace cx.tracing .call name values)
        cx.invoke function values
    | .method receiver name arguments => do
        let o ← lift (expectObject (← evalExpr cx receiver))
        let function ← lift (calledMethod o name)
        let values ← evalAll cx arguments
        lift (trace cx.tracing .method (o.title ++ "." ++ name) values)
        cx.invoke function (.object o :: values)
    | .object name fields methods => do
        let frame ← lift (allocate none)
        within frame do
          declareAll cx fields
          defineFunctions methods
        let value := Value.object { name, frame }
        if let some name := name then
          lift (define name value)
        return value

/-- The values of several expressions, in order. -/
def evalAll (cx : Context) : List Expr → Trailing (List Value)
  | [] => return []
  | e :: rest => do
      let value ← evalExpr cx e
      return value :: (← evalAll cx rest)

/-- The value of an optional expression. -/
def evalOption (cx : Context) : Option Expr → Trailing Value
  | none => return .nil
  | some e => evalExpr cx e

/-- Declares a variable in the present frame. -/
def declare (cx : Context) : Declaration → Trailing Value
  | { name, value } => do
      let value ← evalOption cx value
      lift (define name value)
      return value

/-- Declares the fields of an object in the present frame. -/
def declareAll (cx : Context) : List Declaration → Trailing Unit
  | [] => return
  | d :: rest => do
      discard (visit (.stmt (.declare d)) (declare cx d))
      declareAll cx rest

/-- Executes a statement. -/
def execStmt (cx : Context) (statement : Stmt) : Trailing Completion :=
  visit (.stmt statement) <|
    match statement with
    | .declare d => return .normal (← declare cx d)
    | .define d => return .normal (← lift (defineFunction d))
    | .branch condition thenBody elseBody => do
        if ← lift (expectBool (← evalExpr cx condition)) then
          within (← lift openFrame) (execBlock cx .nil thenBody)
        else
          within (← lift openFrame) (execBlock cx .nil elseBody)
    | .loop name iterable body => do
        let items ← lift (expectList (← evalExpr cx iterable))
        forEach (fun item => do
          let frame ← lift openFrame
          lift (defineIn frame name item)
          within frame (execBlock cx .nil body)) items
    | .ret value => return .returned (← evalOption cx value) (.ret value)
    | .perform expression => return .normal (← evalExpr cx expression)
    | .assign target value => do
        let result ← evalExpr cx value
        match target with
        | .name name => lift (assign name result)
        | .property receiver name => do
            let o ← lift (expectObject (← evalExpr cx receiver))
            lift (setMember o name result)
        | _ => lift (raise (.notTarget target.form))
        return .normal result

/-- Executes statements in the present frame up to the first RETURN. -/
def execBlock (cx : Context) (last : Value) : List Stmt → Trailing Completion
  | [] => return .normal last
  | first :: rest => do
      match ← execStmt cx first with
      | .returned value origin => return .returned value origin
      | .normal value => execBlock cx value rest

end

/-- Runs the body of a user function. Its definition is not visited, only the statements of the body are. -/
def runBody (cx : Context) (d : Definition) (scope : FrameId) (arguments : List Value) :
    Trailing Value := do
  let frame ← lift (allocate (some scope))
  lift (bindParameters frame (d.parameters.zip arguments))
  match ← within frame (execBlock cx .nil d.body) with
  | .returned value _ => return value
  | .normal _ => return .nil

/-- Calls a function, with at most `depth` calls of user functions inside each other. -/
def invoke (tracing : Tracing) : (depth : Nat) → Function → List Value → Trailing Value
  | _, { body := .native native, .. }, arguments => lift (callNative native arguments)
  | 0, { body := .closure .., .. }, _ => lift (throw .endless)
  | depth + 1, { body := .closure d scope, .. }, arguments => do
      if arguments.length ≠ d.parameters.length then
        lift (raiseAt (.stmt (.define d)) (.arity d.name d.parameters.length arguments.length))
      runBody { tracing, invoke := invoke tracing depth } d scope arguments

/-- Executes the statements of a program. -/
def runStatements (cx : Context) (last : Value) : List Stmt → Trailing Value
  | [] => return last
  | first :: rest => do
      let value ← lift (complete (← execStmt cx first))
      runStatements cx value rest

/-- The value of a program, a statement or an expression in the present frame. -/
def run (tracing : Tracing) (depth : Nat) (node : Node) : Trailing Value :=
  let cx : Context := { tracing, invoke := invoke tracing depth }
  match node with
  | .source statements => visit (.source statements) (runStatements cx .nil statements)
  | .stmt statement => do lift (complete (← execStmt cx statement))
  | .expr expression => evalExpr cx expression

/-- The step with its errors as they are reported. -/
def settled {α : Type} (step : Trailing α) : Eval α := fun s =>
  match step s with
  | .ok a t => .ok a t
  | .error d t => .error d.settled t

section Rules
variable {α β : Type}

theorem settled_pure (a : α) : settled (pure a) = pure a :=
  rfl

theorem settled_bind (m : Trailing α) (k : α → Trailing β) :
    settled (m >>= k) = settled m >>= fun a => settled (k a) := by
  funext s
  simp only [settled, bind_apply]
  cases m s <;> rfl

theorem settled_discard (m : Trailing α) : settled (discard m) = discard (settled m) :=
  settled_bind m fun _ => pure ()

/-- An error that has left no visit is reported as it was raised. -/
theorem settled_lift (step : Eval α) : settled (lift step) = step := by
  funext s
  simp only [settled, lift]
  cases step s with
  | ok a t => rfl
  | error fault t =>
      cases fault with
      | error e => simp only [Departure.settled, List.head?_nil, Option.or_none]
      | endless | breakdown => rfl

/-- Only the first node of a trail is blamed, as every later one finds a node to blame already. -/
theorem settled_visit (node : Node) (step : Trailing α) :
    settled (visit node step) = blame node (settled step) := by
  funext s
  simp only [settled, visit, blame]
  cases step s with
  | ok a t => rfl
  | error d t =>
      obtain ⟨fault, visits⟩ := d
      cases fault with
      | endless | breakdown => rfl
      | error e =>
          obtain ⟨cause, raised⟩ := e
          cases raised <;> cases visits <;> rfl

theorem settled_within (frame : FrameId) (step : Trailing α) :
    settled (within frame step) = Eval.within frame (settled step) := by
  funext s
  simp only [settled, within, Eval.within]
  cases step { s with scope := frame } <;> rfl

theorem settled_forEach {step : Value → Eval Completion} {step' : Value → Trailing Completion}
    (h : ∀ item, settled (step' item) = step item) (items : List Value) :
    settled (forEach step' items) = Eval.forEach step items := by
  induction items with
  | nil => rfl
  | cons item rest ih =>
      rw [forEach, Eval.forEach, settled_bind, h]
      refine congrArg _ (funext fun completion => ?_)
      cases completion with
      | normal value => exact ih
      | returned value origin => rfl

theorem settled_defineFunctions (definitions : List Definition) :
    settled (defineFunctions definitions) = Eval.defineFunctions definitions := by
  induction definitions with
  | nil => rfl
  | cons d rest ih =>
      rw [defineFunctions, Eval.defineFunctions, settled_bind, settled_discard, settled_visit, settled_lift,
        ih]

end Rules

/-- The contexts trace calls in the same way, and make them with the same results. -/
structure Settles (cx : Eval.Context) (cx' : Context) : Prop where
  trace : cx.trace = trace cx'.tracing
  invoke (function : Function) (arguments : List Value) :
    settled (cx'.invoke function arguments) = cx.invoke function arguments

section Tree
variable {cx : Eval.Context} {cx' : Context}

mutual

theorem settled_evalExpr (h : Settles cx cx') (e : Expr) :
    settled (evalExpr cx' e) = Eval.evalExpr cx e := by
  rw [evalExpr.eq_def, Eval.evalExpr.eq_def, settled_visit]
  refine congrArg _ ?_
  cases e with
  | literal value => rfl
  | group inner => exact settled_evalExpr h inner
  | binary operator left right =>
      have hright := settled_evalExpr h right
      simp only [settled_bind, settled_evalExpr h left]
      refine congrArg _ (funext fun leftValue => ?_)
      cases operator with
      | and =>
          simp only [settled_bind, settled_lift]
          refine congrArg _ (funext fun holds => ?_)
          cases holds with
          | true => simp only [if_true, settled_bind, settled_lift, settled_pure, hright]
          | false => rfl
      | or =>
          simp only [settled_bind, settled_lift]
          refine congrArg _ (funext fun holds => ?_)
          cases holds with
          | true => rfl
          | false =>
              simp only [Bool.false_eq_true, if_false, settled_bind, settled_lift, settled_pure, hright]
      | equal | unequal | less | lessEqual | greater | greaterEqual | add | subtract | multiply | divide
      | unknown => simp only [settled_bind, settled_lift, hright]
  | name name => exact settled_lift _
  | property receiver name =>
      simp only [settled_bind, settled_evalExpr h receiver]
      refine congrArg _ (funext fun value => ?_)
      rw [settled_lift]
      exact congrArg _ (funext fun o => settled_lift _)
  | call name arguments =>
      simp only [settled_bind, settled_evalAll h arguments, settled_lift, h.trace, h.invoke]
  | method receiver name arguments =>
      simp only [settled_bind, settled_evalExpr h receiver, settled_evalAll h arguments, settled_lift,
        h.trace, h.invoke]
  | object name fields methods =>
      simp only [settled_bind, settled_lift, settled_within, settled_declareAll h fields,
        settled_defineFunctions]
      refine congrArg _ (funext fun frame => congrArg _ (funext fun _ => ?_))
      cases name with
      | none => rfl
      | some name => simp only [settled_bind, settled_lift, settled_pure]

theorem settled_evalAll (h : Settles cx cx') (es : List Expr) :
    settled (evalAll cx' es) = Eval.evalAll cx es := by
  rw [evalAll.eq_def, Eval.evalAll.eq_def]
  cases es with
  | nil => rfl
  | cons e rest =>
      simp only [settled_bind, settled_evalExpr h e, settled_evalAll h rest, settled_pure]

theorem settled_evalOption (h : Settles cx cx') (e : Option Expr) :
    settled (evalOption cx' e) = Eval.evalOption cx e := by
  rw [evalOption.eq_def, Eval.evalOption.eq_def]
  cases e with
  | none => rfl
  | some e => exact settled_evalExpr h e

theorem settled_declare (h : Settles cx cx') (d : Declaration) :
    settled (declare cx' d) = Eval.declare cx d := by
  rw [declare.eq_def, Eval.declare.eq_def]
  obtain ⟨name, value⟩ := d
  simp only [settled_bind, settled_evalOption h value, settled_lift, settled_pure]

theorem settled_declareAll (h : Settles cx cx') (ds : List Declaration) :
    settled (declareAll cx' ds) = Eval.declareAll cx ds := by
  rw [declareAll.eq_def, Eval.declareAll.eq_def]
  cases ds with
  | nil => rfl
  | cons d rest =>
      simp only [settled_bind, settled_discard, settled_visit, settled_declare h d, settled_declareAll h rest]

end

mutual

theorem settled_execStmt (h : Settles cx cx') (statement : Stmt) :
    settled (execStmt cx' statement) = Eval.execStmt cx statement := by
  rw [execStmt.eq_def, Eval.execStmt.eq_def, settled_visit]
  refine congrArg _ ?_
  cases statement with
  | declare d => simp only [settled_bind, settled_declare h d, settled_pure]
  | define d => simp only [settled_bind, settled_lift, settled_pure]
  | branch condition thenBody elseBody =>
      have hthen := settled_execBlock h .nil thenBody
      have helse := settled_execBlock h .nil elseBody
      simp only [settled_bind, settled_evalExpr h condition, settled_lift]
      refine congrArg _ (funext fun value => congrArg _ (funext fun holds => ?_))
      cases holds with
      | true => simp only [if_true, settled_bind, settled_lift, settled_within, hthen]
      | false => simp only [Bool.false_eq_true, if_false, settled_bind, settled_lift, settled_within, helse]
  | loop name iterable body =>
      have hbody := settled_execBlock h .nil body
      simp only [settled_bind, settled_evalExpr h iterable, settled_lift]
      refine congrArg _ (funext fun value => congrArg _ (funext fun items => ?_))
      refine settled_forEach (fun item => ?_) items
      simp only [settled_bind, settled_lift, settled_within, hbody]
  | ret value => simp only [settled_bind, settled_evalOption h value, settled_pure]
  | perform expression => simp only [settled_bind, settled_evalExpr h expression, settled_pure]
  | assign target value =>
      simp only [settled_bind, settled_evalExpr h value]
      refine congrArg _ (funext fun result => ?_)
      cases target with
      | property receiver name =>
          simp only [settled_bind, settled_evalExpr h receiver, settled_lift, settled_pure]
      | name | literal | group | binary | call | method | object =>
          simp only [settled_bind, settled_lift, settled_pure]

theorem settled_execBlock (h : Settles cx cx') (last : Value) (statements : List Stmt) :
    settled (execBlock cx' last statements) = Eval.execBlock cx last statements := by
  rw [execBlock.eq_def, Eval.execBlock.eq_def]
  cases statements with
  | nil => rfl
  | cons first rest =>
      simp only [settled_bind, settled_execStmt h first]
      refine congrArg _ (funext fun completion => ?_)
      cases completion with
      | normal value => exact settled_execBlock h value rest
      | returned value origin => rfl

end

theorem settled_runBody (h : Settles cx cx') (d : Definition) (scope : FrameId) (arguments : List Value) :
    settled (runBody cx' d scope arguments) = cx.runBody d scope arguments := by
  simp only [runBody, Context.runBody, settled_bind, settled_lift, settled_within, settled_execBlock h]
  refine congrArg _ (funext fun frame => congrArg _ (funext fun _ => ?_))
  refine congrArg _ (funext fun completion => ?_)
  cases completion <;> rfl

theorem settled_runStatements (h : Settles cx cx') (last : Value) (statements : List Stmt) :
    settled (runStatements cx' last statements) = Eval.runStatements cx last statements := by
  induction statements generalizing last with
  | nil => rfl
  | cons first rest ih =>
      simp only [runStatements, Eval.runStatements, settled_bind, settled_execStmt h first, settled_lift, ih]

end Tree

/-- Calls have the same results. The body of a function is executed with calls of a smaller depth. -/
theorem settles_upTo (tracing : Tracing) (depth : Nat) :
    Settles (.upTo tracing depth) { tracing, invoke := invoke tracing depth } := by
  refine ⟨rfl, ?_⟩
  induction depth with
  | zero =>
      intro function arguments
      obtain ⟨ident, name, body⟩ := function
      cases body with
      | native native => exact settled_lift _
      | closure d scope => exact settled_lift (throw .endless)
  | succ depth ih =>
      intro function arguments
      -- The hypothesis is about calls alone; with the tracing it is about all of a body.
      have h : Settles (.upTo tracing depth) { tracing, invoke := invoke tracing depth } := ⟨rfl, ih⟩
      obtain ⟨ident, name, body⟩ := function
      cases body with
      | native native => exact settled_lift _
      | closure d scope =>
          have hbody := settled_runBody h d scope arguments
          change settled (invoke tracing (depth + 1) _ arguments) =
            Eval.invoke tracing (depth + 1) _ arguments
          rw [invoke, invoke_succ]
          simp only [Context.apply]
          by_cases hn : arguments.length ≠ d.parameters.length
          · simp only [if_pos hn, settled_bind, settled_lift, hbody]
          · simp only [if_neg hn, hbody]

/-- The evaluator reports every error as it was raised, but for the node to blame if it was raised without
one: that is the first node whose visit it left. -/
theorem settled_run (tracing : Tracing) (depth : Nat) (node : Node) :
    settled (run tracing depth node) = Eval.run (.upTo tracing depth) node := by
  have h := settles_upTo tracing depth
  cases node with
  | source statements => rw [run, Eval.run, settled_visit, settled_runStatements h]
  | stmt statement => simp only [run, Eval.run, settled_bind, settled_execStmt h, settled_lift]
  | expr expression => exact settled_evalExpr h expression

end Trailing

end ProtoScript.Eval
