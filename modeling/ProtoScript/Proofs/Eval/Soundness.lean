import ProtoScript.Proofs.Eval.Traversal
import ProtoScript.Proofs.Eval.Upkeep

/-!
# Evaluation upholds what its steps uphold

To uphold soundness is a regime, whose worlds are the points of a run. If programs are read from sources,
then its nodes are those that a source can spell, with all their parts.
-/

namespace ProtoScript
open ProtoScript.Parser

section Lists

theorem printableExprs_iff {es : List Expr} :
    printableExprs es = true ↔ ∀ e ∈ es, e.printable (some .logical) = true := by
  induction es with
  | nil => simp [printableExprs]
  | cons e rest ih => simp [printableExprs, ih]

theorem printableDeclarations_iff {ds : List Declaration} :
    printableDeclarations ds = true ↔ ∀ d ∈ ds, d.printable = true := by
  induction ds with
  | nil => simp [printableDeclarations]
  | cons d rest ih => simp [printableDeclarations, ih]

theorem printableDefinitions_iff {ds : List Definition} :
    printableDefinitions ds = true ↔ ∀ d ∈ ds, d.printable = true := by
  induction ds with
  | nil => simp [printableDefinitions]
  | cons d rest ih => simp [printableDefinitions, ih]

theorem printableStmts_iff {statements : List Stmt} :
    printableStmts statements = true ↔ ∀ statement ∈ statements, statement.printable = true := by
  induction statements with
  | nil => simp [printableStmts]
  | cons statement rest ih => simp [printableStmts, ih]

theorem printableOption_iff {e : Option Expr} :
    printableOption e = true ↔ ∀ e' ∈ e, e'.printable (some .logical) = true := by
  cases e <;> simp [printableOption]

end Lists

/-- On every level stands what can stand in parentheses. -/
theorem Expr.printable_logical {e : Expr} {level : Option Layer} (h : e.printable level = true) :
    e.printable (some .logical) = true := by
  refine Grammar.printable_mono ?_ e h
  rcases level with _ | _ | _ | _ | _ <;> decide

theorem Expr.printable_binary {operator : Operator} {left right : Expr} {level : Option Layer}
    (h : (Expr.binary operator left right).printable level = true) :
    operator.layer?.isSome = true ∧ left.printable (some .logical) = true ∧
      right.printable (some .logical) = true := by
  rw [printable] at h
  split at h
  · cases h
  · next layer hlayer =>
      simp only [Bool.and_eq_true] at h
      exact ⟨by rw [hlayer]; rfl, printable_logical h.2.1, printable_logical h.2.2⟩

namespace Node

/-- A source can spell the node. -/
def Written (node : Node) : Prop :=
  ∃ rule, node.printable rule = true

theorem written_expr {e : Expr} : Written (.expr e) ↔ e.printable (some .logical) = true := by
  refine ⟨?_, fun h => ⟨.expression, h⟩⟩
  rintro ⟨rule, h⟩
  cases rule <;> first | exact h | cases h

theorem written_stmt {statement : Stmt} : Written (.stmt statement) ↔ statement.printable = true := by
  refine ⟨?_, fun h => ⟨.statement, h⟩⟩
  rintro ⟨rule, h⟩
  cases rule <;> first | exact h | cases h

theorem written_declare {d : Declaration} : Written (.stmt (.declare d)) ↔ d.printable = true := by
  rw [written_stmt, Stmt.printable]

theorem written_define {d : Definition} : Written (.stmt (.define d)) ↔ d.printable = true := by
  rw [written_stmt, Stmt.printable]

theorem isIdentifier_of_written {name : Option String} {fields : List Declaration}
    {methods : List Definition} (h : Written (.expr (.object name fields methods))) :
    name.all isIdentifier = true := by
  rw [written_expr, Expr.printable, Bool.and_eq_true] at h
  exact h.1

theorem written_source {statements : List Stmt} :
    Written (.source statements) ↔ printableStmts statements = true := by
  refine ⟨?_, fun h => ⟨.source, h⟩⟩
  rintro ⟨rule, h⟩
  cases rule <;> first | exact h | cases h

theorem written_exprs {es : List Expr} (h : printableExprs es = true) {part : Node}
    (hp : part ∈ es.map Node.expr) : part.Written := by
  obtain ⟨e, he, rfl⟩ := List.mem_map.mp hp
  exact written_expr.mpr (printableExprs_iff.mp h e he)

theorem written_stmts {statements : List Stmt} (h : printableStmts statements = true) {part : Node}
    (hp : part ∈ statements.map Node.stmt) : part.Written := by
  obtain ⟨statement, hs, rfl⟩ := List.mem_map.mp hp
  exact written_stmt.mpr (printableStmts_iff.mp h statement hs)

theorem written_option {e : Option Expr} (h : printableOption e = true) {part : Node}
    (hp : part ∈ e.toList.map Node.expr) : part.Written := by
  obtain ⟨e', he, rfl⟩ := List.mem_map.mp hp
  exact written_expr.mpr (printableOption_iff.mp h e' (Option.mem_toList.mp he))

theorem written_part_expr {e : Expr} (h : e.printable (some .logical) = true) {part : Node}
    (hp : part ∈ e.parts) : part.Written := by
  cases e with
  | literal | name => cases hp
  | group inner =>
      rw [Expr.printable] at h
      rw [List.mem_singleton.mp hp]
      exact written_expr.mpr h
  | binary operator left right =>
      obtain ⟨-, hleft, hright⟩ := Expr.printable_binary h
      rcases List.mem_pair.mp hp with rfl | rfl
      · exact written_expr.mpr hleft
      · exact written_expr.mpr hright
  | property receiver name =>
      rw [Expr.printable, Bool.and_eq_true] at h
      rw [List.mem_singleton.mp hp]
      exact written_expr.mpr (Expr.printable_logical h.1)
  | call name arguments =>
      rw [Expr.printable, Bool.and_eq_true] at h
      exact written_exprs h.2 hp
  | method receiver name arguments =>
      simp only [Expr.printable, Bool.and_eq_true] at h
      rcases List.mem_cons.mp hp with rfl | hp
      · exact written_expr.mpr (Expr.printable_logical h.1)
      · exact written_exprs h.2.2 hp
  | object name fields methods =>
      simp only [Expr.printable, Bool.and_eq_true] at h
      rcases List.mem_append.mp hp with hp | hp
      · obtain ⟨d, hd, rfl⟩ := List.mem_map.mp hp
        exact written_declare.mpr (printableDeclarations_iff.mp h.2.1 d hd)
      · obtain ⟨d, hd, rfl⟩ := List.mem_map.mp hp
        exact written_define.mpr (printableDefinitions_iff.mp h.2.2 d hd)

theorem written_part_stmt {statement : Stmt} (h : statement.printable = true) {part : Node}
    (hp : part ∈ statement.parts) : part.Written := by
  cases statement with
  | declare d =>
      obtain ⟨name, value⟩ := d
      simp only [Stmt.printable, Declaration.printable, Bool.and_eq_true] at h
      exact written_option h.2 hp
  | define d =>
      obtain ⟨name, parameters, body⟩ := d
      simp only [Stmt.printable, Definition.printable, Bool.and_eq_true] at h
      exact written_stmts h.2.2 hp
  | branch condition thenBody elseBody =>
      simp only [Stmt.printable, Bool.and_eq_true] at h
      rcases List.mem_cons.mp hp with rfl | hp
      · exact written_expr.mpr h.1
      · rw [List.map_append] at hp
        rcases List.mem_append.mp hp with hp | hp
        · exact written_stmts h.2.1 hp
        · exact written_stmts h.2.2 hp
  | loop name iterable body =>
      simp only [Stmt.printable, Bool.and_eq_true] at h
      rcases List.mem_cons.mp hp with rfl | hp
      · exact written_expr.mpr h.2.1
      · exact written_stmts h.2.2 hp
  | ret value =>
      rw [Stmt.printable] at h
      exact written_option h hp
  | perform expression =>
      rw [Stmt.printable] at h
      rw [List.mem_singleton.mp hp]
      exact written_expr.mpr h
  | assign target value =>
      simp only [Stmt.printable, Bool.and_eq_true] at h
      rcases List.mem_pair.mp hp with rfl | rfl
      · exact written_expr.mpr h.2.1
      · exact written_expr.mpr h.2.2

/-- What stands in a source is spelled there. -/
theorem Written.part {part whole : Node} (h : whole.Written) (hp : part ∈ whole.parts) : part.Written := by
  cases whole with
  | source statements => exact written_stmts (written_source.mp h) hp
  | stmt statement => exact written_part_stmt (written_stmt.mp h) hp
  | expr e => exact written_part_expr (written_expr.mp h) hp

end Node

/-- All characters, and the nodes that a source can spell if programs are read from sources. -/
def Stock.ofSources (written : Prop) : Stock where
  toAlphabet := .full
  node n := written → n.Written
  part h hp hw := (h hw).part hp
  word _ _ _ := fun _ _ => trivial

theorem Cause.Common.ordinary {cause : Cause} (h : cause.Common) : cause.Ordinary := by
  cases cause <;> first | exact trivial | exact h.elim

namespace Eval
variable {written : Prop} {p : Point}

/-- To uphold soundness is a regime. -/
def upkeep (written : Prop) : Regime where
  toStock := .ofSources written
  World := Point
  Before := Point.Before
  value := Point.Holds written
  frame p f := f < p.heap.size
  Obeys := Keeps written
  refl := .refl
  trans := .trans
  value_later h hv := hv.later h
  frame_later h hf := Nat.lt_of_lt_of_le hf h.heap.size
  value_bare {_ v} hv := by
    cases v with
    | nil | bool | int | decimal => exact (Point.holds_leaf rfl).mpr ⟨trivial, fun _ => trivial⟩
    | character | string | list | function | object | foreign => exact hv.elim
  value_text _ := ⟨(Point.holds_leaf rfl).mpr ⟨trivial, fun _ => trivial⟩,
    (Point.holds_leaf rfl).mpr ⟨trivial, fun _ => trivial⟩⟩
  value_list := Point.holds_list
  closure {_ function _ _} hb hf := by
    obtain ⟨ident, name, body⟩ := function
    cases hb
    obtain ⟨hscope, hd⟩ := Point.holds_closure.mp hf
    exact ⟨fun hw => Node.written_define.mpr (hd hw), hscope⟩
  title _ := fun _ _ => trivial
  pure := .pure
  bind := .bind
  blame {_ _ _ n _} _ := .blame n
  within := .within
  endless := .throw fun _ => trivial
  limit reason := .throw fun _ => .inr ⟨reason, rfl⟩
  raise hc _ := .raise fun _ => Cause.Common.ordinary hc
  raiseAt {_ _ _ n _} _ hc _ := .raiseAt n fun _ => Cause.Common.ordinary hc
  noProperty ho _ := .raise ho.plain_title
  noMethod ho _ := .raise ho.plain_title
  unknownOperator hn := .raise fun hw => by
    have hlayer := (Expr.printable_binary (Node.written_expr.mp (hn hw))).1
    cases hlayer
  notTarget hn ht := .raise fun hw => by
    have hs := Node.written_stmt.mp (hn hw)
    rw [Stmt.printable, ht] at hs
    cases hs
  kind := keeps_kind
  equals hl hr := keeps_equals hl hr
  display {_ v} _ := keeps_display v fun _ _ _ _ => trivial
  displayInt n :=
    keeps_ofExcept (fun _ => displayInt_failsOnly Fault.ordinary_digitLimit n) fun _ _ _ _ => trivial
  inspect {_ v} _ :=
    keeps_ofExcept (fun _ => inspect_failsOnly Fault.ordinary_digitLimit v) fun _ _ _ _ => trivial
  write {_ event} _ := keeps_write event
  scope := keeps_scope
  resolve := keeps_resolve
  lookup {_ o} _ := keeps_lookup o
  allocate := keeps_allocate
  createObject hn := keeps_createObject fun hw => Node.isIdentifier_of_written (hn hw)
  createFunction {_ d _} hd hf := keeps_createFunction d.name fun _ =>
    Point.holds_closure.mpr ⟨hf, fun hw => Node.written_define.mp (hd hw)⟩
  defineIn {_ _ name _} hf _ := keeps_defineIn hf name
  assign {_ name _} _ := keeps_assign name
  setMember {_ _ name _} ho _ := keeps_setMember ho name

/-- A run upholds soundness. -/
theorem keeps_run (tracing : Tracing) (depth : Nat) {program : Node} (hprogram : written → program.Written) :
    Keeps written p (Point.Holds written) (run (.upTo tracing depth) program) :=
  (upkeep written).obeys_run tracing depth hprogram

end Eval

end ProtoScript
