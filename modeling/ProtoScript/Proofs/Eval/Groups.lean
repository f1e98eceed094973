import ProtoScript.Proofs.Eval.Mirror
import ProtoScript.Proofs.Tree.Groups

/-!
# Parentheses keep the meaning

An evaluation and the evaluation of the tree without groups do the same, up to the groups in the closures
that they create and in the nodes that they blame. A group is evaluated by evaluating its content; all
that it could add is to be blamed, and the content is blamed first.
-/

namespace ProtoScript.Eval

/-- Removing groups from the trees of an evaluation. -/
def ungrouping (removal : Removal) : Recast where
  definition := Definition.ungroup removal
  node := Node.ungroup removal

theorem blame_evalExpr (cx : Context) (node : Node) (e : Expr) :
    blame node (evalExpr cx e) = evalExpr cx e := by
  rw [evalExpr.eq_def, blame_blame]

theorem evalExpr_group (cx : Context) (inner : Expr) :
    evalExpr cx (.group inner) = evalExpr cx inner := by
  rw [evalExpr.eq_def]
  exact blame_evalExpr cx _ inner

theorem evalExpr_ofGroup (cx : Context) (removal : Removal) (content : Expr) :
    evalExpr cx (content.ofGroup removal) = evalExpr cx content := by
  cases removal with
  | all | inner => rfl
  | none => exact evalExpr_group cx content

section Same
variable (removal : Removal)

/-- Both steps give the same value, and leave the same state, up to the groups that are removed. -/
abbrev SameValue (step step' : Eval Value) : Prop :=
  (ungrouping removal).Mirrors (ungrouping removal).value step step'

/-- Both steps give the same values, up to the groups that are removed. -/
abbrev SameValues (step step' : Eval (List Value)) : Prop :=
  (ungrouping removal).Mirrors (ungrouping removal).values step step'

/-- Both steps end alike, up to the groups that are removed. -/
abbrev SameCompletion (step step' : Eval Completion) : Prop :=
  (ungrouping removal).Mirrors ((ungrouping removal).completion (Stmt.ungroup removal)) step step'

/-- Both steps do the same, up to the groups that are removed. -/
abbrev SameEffect (step step' : Eval Unit) : Prop :=
  (ungrouping removal).Mirrors id step step'

/-- Calls of the context are traced and made in the same way, up to the groups that are removed. -/
structure SameCalls (cx : Context) : Prop where
  trace (kind : StepKind) (callee : String) (values : List Value) :
    SameEffect removal (cx.trace kind callee values)
      (cx.trace kind callee ((ungrouping removal).values values))
  invoke (function : Function) (values : List Value) :
    SameValue removal (cx.invoke function values)
      (cx.invoke ((ungrouping removal).function function) ((ungrouping removal).values values))

end Same

open Recast
variable {removal : Removal} {cx : Context}

theorem same_forEach {step step' : Value → Eval Completion}
    (hstep : ∀ item, SameCompletion removal (step item) (step' ((ungrouping removal).value item)))
    (items : List Value) :
    SameCompletion removal (forEach step items) (forEach step' ((ungrouping removal).values items)) := by
  induction items with
  | nil => exact .pure rfl
  | cons item rest ih =>
      refine .bind (hstep item) ?_
      intro completion
      cases completion with
      | normal _ => exact ih
      | returned _ _ => exact .pure rfl

theorem same_defineFunction (d : Definition) :
    SameValue removal (defineFunction d) (defineFunction (d.ungroup removal)) := by
  obtain ⟨name, parameters, body⟩ := d
  refine .read fun s => .bind (mirrors_createFunction _ _) fun function => ?_
  exact .bind (mirrors_define _ (.function function)) fun _ => .pure rfl

theorem same_defineFunctions (ds : List Definition) :
    SameEffect removal (defineFunctions ds) (defineFunctions (ungroupDefinitions removal ds)) := by
  induction ds with
  | nil => exact .pure rfl
  | cons d rest ih => exact .bind (.discard (.blame _ (same_defineFunction d))) fun _ => ih

mutual

theorem same_evalExpr (hcx : SameCalls removal cx) (e : Expr) :
    SameValue removal (evalExpr cx e) (evalExpr cx (e.ungroup removal)) := by
  cases e with
  | group inner =>
      -- With or without the group that takes its place, the content is evaluated and blamed.
      rw [evalExpr_group, Expr.ungroup, evalExpr_ofGroup]
      exact same_evalExpr hcx inner
  | literal value =>
      unfold evalExpr
      exact .blame (.expr (.literal value)) (.pure (value_ofLiteral _ value))
  | binary operator left right =>
      unfold evalExpr
      refine .blame (.expr (.binary operator left right)) ?_
      apply Mirrors.bind (same_evalExpr hcx left)
      intro leftValue
      have hbool : SameValue removal (return .bool (← expectBool (← evalExpr cx right)))
          (return .bool (← expectBool (← evalExpr cx (right.ungroup removal)))) := by
        apply Mirrors.bind (same_evalExpr hcx right)
        intro rightValue
        exact .bind (mirrors_expectBool rightValue) fun _ => .pure rfl
      split
      · apply Mirrors.bind (mirrors_expectBool leftValue)
        intro holds
        exact .ite hbool (.pure rfl)
      · apply Mirrors.bind (mirrors_expectBool leftValue)
        intro holds
        exact .ite (.pure rfl) hbool
      · apply Mirrors.bind (same_evalExpr hcx right)
        intro rightValue
        exact mirrors_applyOperator leftValue rightValue _
  | name name =>
      unfold evalExpr
      refine .blame (.expr (.name name)) ?_
      apply Mirrors.bind (mirrors_resolve name)
      intro found
      cases found with
      | none => exact .raise _
      | some value => exact .pure rfl
  | property receiver name =>
      unfold evalExpr
      refine .blame (.expr (.property receiver name)) ?_
      apply Mirrors.bind (same_evalExpr hcx receiver)
      intro value
      apply Mirrors.bind (mirrors_expectObject value)
      intro o
      exact mirrors_member name o
  | call name arguments =>
      unfold evalExpr
      refine .blame (.expr (.call name arguments)) ?_
      apply Mirrors.bind (mirrors_calledFunction name)
      intro function
      apply Mirrors.bind (same_evalAll hcx arguments)
      intro values
      exact .bind (hcx.trace _ _ values) fun _ => hcx.invoke function values
  | method receiver name arguments =>
      unfold evalExpr
      refine .blame (.expr (.method receiver name arguments)) ?_
      apply Mirrors.bind (same_evalExpr hcx receiver)
      intro value
      apply Mirrors.bind (mirrors_expectObject value)
      intro o
      apply Mirrors.bind (mirrors_calledMethod name o)
      intro function
      apply Mirrors.bind (same_evalAll hcx arguments)
      intro values
      exact .bind (hcx.trace _ _ values) fun _ => hcx.invoke function (.object o :: values)
  | object name fields methods =>
      unfold evalExpr
      refine .blame (.expr (.object name fields methods)) ?_
      apply Mirrors.bind (mirrors_allocate none)
      intro frame
      have hmembers : SameEffect removal
          (do declareAll cx fields; defineFunctions methods)
          (do declareAll cx (ungroupDeclarations removal fields)
              defineFunctions (ungroupDefinitions removal methods)) :=
        .bind (same_declareAll hcx fields) fun _ => same_defineFunctions methods
      apply Mirrors.bind (.within frame hmembers)
      intro _
      cases name with
      | none => exact .pure rfl
      | some name => exact .bind (mirrors_define name _) fun _ => .pure rfl

theorem same_evalAll (hcx : SameCalls removal cx) (es : List Expr) :
    SameValues removal (evalAll cx es) (evalAll cx (ungroupExprs removal es)) := by
  cases es with
  | nil => exact .pure rfl
  | cons e rest =>
      unfold evalAll
      apply Mirrors.bind (same_evalExpr hcx e)
      intro value
      exact .bind (same_evalAll hcx rest) fun values => .pure rfl

theorem same_evalOption (hcx : SameCalls removal cx) (value : Option Expr) :
    SameValue removal (evalOption cx value) (evalOption cx (ungroupOption removal value)) := by
  cases value with
  | none => exact .pure rfl
  | some e =>
      unfold evalOption
      exact same_evalExpr hcx e

theorem same_declare (hcx : SameCalls removal cx) (d : Declaration) :
    SameValue removal (declare cx d) (declare cx (d.ungroup removal)) := by
  obtain ⟨name, value⟩ := d
  unfold declare
  apply Mirrors.bind (same_evalOption hcx value)
  intro value
  exact .bind (mirrors_define name value) fun _ => .pure rfl

theorem same_declareAll (hcx : SameCalls removal cx) (ds : List Declaration) :
    SameEffect removal (declareAll cx ds) (declareAll cx (ungroupDeclarations removal ds)) := by
  cases ds with
  | nil => exact .pure rfl
  | cons d rest =>
      unfold declareAll
      exact .bind (.discard (.blame (.stmt (.declare d)) (same_declare hcx d))) fun _ =>
        same_declareAll hcx rest

end

mutual

theorem same_execStmt (hr : removal ≠ .all) (hcx : SameCalls removal cx) (statement : Stmt) :
    SameCompletion removal (execStmt cx statement) (execStmt cx (statement.ungroup removal)) := by
  unfold execStmt
  refine .blame (.stmt statement) ?_
  cases statement with
  | declare d => exact .bind (same_declare hcx d) fun _ => .pure rfl
  | define d => exact .bind (same_defineFunction d) fun _ => .pure rfl
  | branch condition thenBody elseBody =>
      apply Mirrors.bind (same_evalExpr hcx condition)
      intro value
      apply Mirrors.bind (mirrors_expectBool value)
      intro holds
      apply Mirrors.ite
      · exact .bind mirrors_openFrame fun frame => .within frame (same_execBlock hr hcx .nil thenBody)
      · exact .bind mirrors_openFrame fun frame => .within frame (same_execBlock hr hcx .nil elseBody)
  | loop name iterable body =>
      apply Mirrors.bind (same_evalExpr hcx iterable)
      intro value
      apply Mirrors.bind (mirrors_expectList value)
      intro items
      refine same_forEach (fun item => ?_) items
      apply Mirrors.bind mirrors_openFrame
      intro frame
      apply Mirrors.bind (mirrors_defineIn name item frame)
      intro _
      exact .within frame (same_execBlock hr hcx .nil body)
  | ret value => exact .bind (same_evalOption hcx value) fun _ => .pure rfl
  | perform expression => exact .bind (same_evalExpr hcx expression) fun _ => .pure rfl
  | assign target value =>
      apply Mirrors.bind (same_evalExpr hcx value)
      intro result
      have hdone (_ : Unit) : SameCompletion removal (return .normal result)
          (return .normal ((ungrouping removal).value result)) := .pure rfl
      cases target with
      | name name => exact .bind (mirrors_assign name result) hdone
      | property receiver name =>
          apply Mirrors.bind (same_evalExpr hcx receiver)
          intro holder
          apply Mirrors.bind (mirrors_expectObject holder)
          intro o
          exact .bind (mirrors_bindIn name result o.frame) hdone
      | group content =>
          -- A group that is a target stays a group, so that it is rejected for the same form.
          cases removal with
          | all => exact absurd rfl hr
          | inner | none => exact .bind (f := id) (.raise _) hdone
      | literal | binary | call | method | object => exact .bind (f := id) (.raise _) hdone

theorem same_execBlock (hr : removal ≠ .all) (hcx : SameCalls removal cx) (last : Value)
    (statements : List Stmt) :
    SameCompletion removal (execBlock cx last statements)
      (execBlock cx ((ungrouping removal).value last) (ungroupStmts removal statements)) := by
  cases statements with
  | nil => exact .pure rfl
  | cons first rest =>
      unfold execBlock
      apply Mirrors.bind (same_execStmt hr hcx first)
      intro completion
      cases completion with
      | normal value => exact same_execBlock hr hcx value rest
      | returned value origin => exact .pure rfl

end

theorem same_runBody (hr : removal ≠ .all) (hcx : SameCalls removal cx) (d : Definition)
    (scope : FrameId) (values : List Value) :
    SameValue removal (cx.runBody d scope values)
      (cx.runBody { d with body := ungroupStmts removal d.body } scope
        ((ungrouping removal).values values)) := by
  apply Mirrors.bind (mirrors_allocate _)
  intro frame
  apply Mirrors.bind (mirrors_bindParameters frame d.parameters values)
  intro _
  apply Mirrors.bind (.within frame (same_execBlock hr hcx .nil d.body))
  intro completion
  cases completion with
  | normal value => exact .pure rfl
  | returned value origin => exact .pure rfl

/-- A call does the same, however deep it may go. -/
theorem sameCalls_upTo (hr : removal ≠ .all) (tracing : Tracing) (depth : Nat) :
    SameCalls removal (.upTo tracing depth) := by
  induction depth with
  | zero =>
      refine ⟨mirrors_trace tracing, ?_⟩
      rintro ⟨ident, called, body⟩ values
      cases body with
      | native native => exact mirrors_callNative native values
      | closure d scope => exact .throw rfl
  | succ depth ih =>
      refine ⟨ih.trace, ?_⟩
      rintro ⟨ident, called, body⟩ values
      cases body with
      | native native => exact mirrors_callNative native values
      | closure d scope =>
          have hbody := same_runBody hr ih d scope values
          have hlength : ((ungrouping removal).values values).length = values.length := by simp
          obtain ⟨name, parameters, body⟩ := d
          change SameValue removal (invoke tracing (depth + 1) _ _) (invoke tracing (depth + 1)
            ⟨ident, called, .closure ⟨name, parameters, ungroupStmts removal body⟩ scope⟩
            ((ungrouping removal).values values))
          rw [invoke, invoke, hlength]
          apply Mirrors.ite
          · have hraise := Mirrors.raiseAt (r := ungrouping removal) (f := (id : Unit → Unit))
              (.stmt (.define { name, parameters, body })) (.arity name parameters.length values.length)
            exact .bind hraise fun _ => hbody
          · exact hbody

theorem same_complete (completion : Completion) :
    SameValue removal (complete completion)
      (complete ((ungrouping removal).completion (Stmt.ungroup removal) completion)) := by
  cases completion with
  | normal value => exact .pure rfl
  | returned value origin => exact .raiseAt (.stmt origin) .strayReturn

theorem same_runStatements (hr : removal ≠ .all) (hcx : SameCalls removal cx) (last : Value)
    (statements : List Stmt) :
    SameValue removal (runStatements cx last statements)
      (runStatements cx ((ungrouping removal).value last) (ungroupStmts removal statements)) := by
  induction statements generalizing last with
  | nil => exact .pure rfl
  | cons first rest ih =>
      apply Mirrors.bind (same_execStmt hr hcx first)
      intro completion
      exact .bind (same_complete completion) fun value => ih value

theorem same_run (hr : removal ≠ .all) (hcx : SameCalls removal cx) (tree : Node) :
    SameValue removal (run cx tree) (run cx (tree.ungroup removal)) := by
  cases tree with
  | source statements =>
      exact .blame (.source statements) (same_runStatements hr hcx .nil statements)
  | stmt statement => exact .bind (same_execStmt hr hcx statement) same_complete
  | expr expression => exact same_evalExpr hcx expression

/-- No closure in the state assigns to a group. -/
def Plain (s : State) : Prop :=
  (ungrouping .none).state s = s

theorem plain_initial : Plain State.initial :=
  state_initial _

/-- Where nothing is assigned to a group, all groups go if all but those that are assigned to do. -/
theorem coincide_ungrouping : Coincide (ungrouping .none) (ungrouping .inner) (ungrouping .all) where
  definition := Definition.ungroup_inner
  node := Node.ungroup_inner

section Plain
variable {tree : Node} {s : State} (ht : tree.ungroup .none = tree) (hs : Plain s) (tracing : Tracing)
  (depth : Nat)
include ht hs

/-- An evaluation makes nothing that assigns to a group. -/
theorem result_of_plain :
    (ungrouping .none).result (ungrouping .none).value (run (.upTo tracing depth) tree s) =
      run (.upTo tracing depth) tree s := by
  have hcalls : SameCalls .none (.upTo tracing depth) := sameCalls_upTo (by decide) tracing depth
  have hrun := same_run (by decide) hcalls tree s
  rw [ht, hs] at hrun
  exact hrun.symm

theorem plain_finalState : Plain (finalState (run (.upTo tracing depth) tree s)) := by
  have h := congrArg finalState (result_of_plain ht hs tracing depth)
  cases hr : run (.upTo tracing depth) tree s <;> rw [hr] at h <;> exact h

end Plain

/-- Parentheses never change what a program does. Take the groups out of a program that was read from a
source and out of the closures of a state: the evaluation ends in the same value or with the same error,
at the same node, and leaves the same heap and output, if the groups are taken out of those, too. In a
closure that no source spells, a group that is assigned to has to stay one. A state without such closures
stays without them, and there every group can go. -/
theorem parentheses_keep_meaning {rule : Parser.Rule} {ts : List Token} {tree : Node}
    (hts : ∀ token ∈ ts, token.Emitted) (h : Parser.parse rule ts = .ok tree) (tracing : Tracing)
    (depth : Nat) (s : State) :
    run (.upTo tracing depth) tree.strip ((ungrouping .inner).state s) =
        (ungrouping .inner).result (ungrouping .inner).value (run (.upTo tracing depth) tree s) ∧
      (Plain s →
        run (.upTo tracing depth) tree.strip ((ungrouping .all).state s) =
            (ungrouping .all).result (ungrouping .all).value (run (.upTo tracing depth) tree s) ∧
          Plain (finalState (run (.upTo tracing depth) tree s))) := by
  have hplain := Grammar.plain_of_spells
    (Grammar.spells_of_parse (fun token ht => (hts token ht).shaped) h)
  have hrun : run (.upTo tracing depth) tree.strip ((ungrouping .inner).state s) =
      (ungrouping .inner).result (ungrouping .inner).value (run (.upTo tracing depth) tree s) := by
    rw [← Node.ungroup_inner hplain]
    exact same_run (by decide) (sameCalls_upTo (by decide) tracing depth) tree s
  refine ⟨hrun, fun hs => ⟨?_, plain_finalState hplain hs tracing depth⟩⟩
  rw [← coincide_ungrouping.state hs,
    ← coincide_ungrouping.result (result_of_plain hplain hs tracing depth)]
  exact hrun

/-- A program that stores a closure with a group in its body, and calls it in one. -/
theorem parentheses_keep_meaning_closure :
    let ts := (Token.lex "DEF f(x) DO RETURN (x) * 2; END LET y = (f((3)));").tokens
    let tree := Node.source
      [.define ⟨"f", ["x"],
        [.ret (some (.binary .multiply (.group (.name "x")) (.literal (.int 2))))]⟩,
      .declare ⟨"y", some (.group (.call "f" [.group (.literal (.int 3))]))⟩]
    (∀ token ∈ ts, token.Emitted) ∧ Parser.parse .source ts = .ok tree ∧ Plain State.initial ∧
      run (.upTo .off 1) tree.strip ((ungrouping .all).state State.initial) =
        (ungrouping .all).result (ungrouping .all).value (run (.upTo .off 1) tree State.initial) := by
  intro ts tree
  have hts : ∀ token ∈ ts, token.Emitted := fun token h => ⟨_, h⟩
  have hparse : Parser.parse .source ts = .ok tree := rfl
  obtain ⟨-, h⟩ := parentheses_keep_meaning hts hparse .off 1 State.initial
  exact ⟨hts, hparse, plain_initial, (h plain_initial).1⟩

end ProtoScript.Eval
