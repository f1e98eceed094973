import ProtoScript.Proofs.Tree.Sound

/-!
# Removing parentheses

Every group of a tree is replaced by the expression in it. A group that is itself the target of an
assignment is told apart: no source spells one, and without its parentheses it could be a target that it
is not with them. So groups can be removed with or without those targets; on the trees that are read
from sources both do the same.
-/

namespace ProtoScript

/-- Which groups of a tree are replaced by the expressions in them. -/
inductive Removal
  | all
  /-- All but those that are assigned to. -/
  | inner
  /-- None; but a group that is assigned to is given another content, by which it can be told. -/
  | none
  deriving DecidableEq, Repr

/-- An expression that differs from the given one. -/
def Expr.other : Expr → Expr
  | .name _ => .literal .nil
  | _ => .name ""

theorem Expr.other_ne (e : Expr) : e.other ≠ e := by
  cases e <;> nofun

/-- What takes the place of a group, given its content without groups. -/
def Expr.ofGroup (removal : Removal) (content : Expr) : Expr :=
  match removal with
  | .none => .group content
  | .all | .inner => content

/-- What takes the place of a target, given the target without groups. -/
def Expr.ofTarget (removal : Removal) (target stripped : Expr) : Expr :=
  match target, removal with
  | .group _, .inner => .group stripped
  | .group content, .none => .group content.other
  | _, _ => stripped

mutual

/-- The expression without the groups that are removed. -/
def Expr.ungroup (removal : Removal) : Expr → Expr
  | .literal value => .literal value
  | .group inner => (inner.ungroup removal).ofGroup removal
  | .binary operator left right => .binary operator (left.ungroup removal) (right.ungroup removal)
  | .name name => .name name
  | .property receiver name => .property (receiver.ungroup removal) name
  | .call name arguments => .call name (ungroupExprs removal arguments)
  | .method receiver name arguments =>
      .method (receiver.ungroup removal) name (ungroupExprs removal arguments)
  | .object name fields methods =>
      .object name (ungroupDeclarations removal fields) (ungroupDefinitions removal methods)

/-- Several expressions without groups. -/
def ungroupExprs (removal : Removal) : List Expr → List Expr
  | [] => []
  | e :: rest => e.ungroup removal :: ungroupExprs removal rest

/-- An optional expression without groups. -/
def ungroupOption (removal : Removal) : Option Expr → Option Expr
  | none => none
  | some e => some (e.ungroup removal)

/-- A declaration without groups. -/
def Declaration.ungroup (removal : Removal) : Declaration → Declaration
  | { name, value } => { name, value := ungroupOption removal value }

/-- Several declarations without groups. -/
def ungroupDeclarations (removal : Removal) : List Declaration → List Declaration
  | [] => []
  | d :: rest => d.ungroup removal :: ungroupDeclarations removal rest

/-- A definition without groups. -/
def Definition.ungroup (removal : Removal) : Definition → Definition
  | { name, parameters, body } => { name, parameters, body := ungroupStmts removal body }

/-- Several definitions without groups. -/
def ungroupDefinitions (removal : Removal) : List Definition → List Definition
  | [] => []
  | d :: rest => d.ungroup removal :: ungroupDefinitions removal rest

/-- A statement without groups. -/
def Stmt.ungroup (removal : Removal) : Stmt → Stmt
  | .declare d => .declare (d.ungroup removal)
  | .define d => .define (d.ungroup removal)
  | .branch condition thenBody elseBody =>
      .branch (condition.ungroup removal) (ungroupStmts removal thenBody) (ungroupStmts removal elseBody)
  | .loop name iterable body => .loop name (iterable.ungroup removal) (ungroupStmts removal body)
  | .ret value => .ret (ungroupOption removal value)
  | .perform expression => .perform (expression.ungroup removal)
  | .assign target value =>
      .assign (target.ofTarget removal (target.ungroup removal)) (value.ungroup removal)

/-- Several statements without groups. -/
def ungroupStmts (removal : Removal) : List Stmt → List Stmt
  | [] => []
  | s :: rest => s.ungroup removal :: ungroupStmts removal rest

end

/-- A tree without groups. -/
def Node.ungroup (removal : Removal) : Node → Node
  | .source statements => .source (ungroupStmts removal statements)
  | .stmt statement => .stmt (statement.ungroup removal)
  | .expr expression => .expr (expression.ungroup removal)

/-- The tree with every group replaced by the expression in it. -/
def Node.strip (tree : Node) : Node :=
  tree.ungroup .all

/-!
Where nothing is assigned to a group, giving such targets another content changes nothing, and all groups
are removed if all but such targets are.
-/

section Unmarked

mutual

theorem Expr.ungroup_inner {e : Expr} (h : e.ungroup .none = e) : e.ungroup .inner = e.ungroup .all := by
  cases e with
  | literal | name => rfl
  | group inner =>
      simp only [Expr.ungroup, Expr.ofGroup, Expr.group.injEq] at h ⊢
      exact Expr.ungroup_inner h
  | binary operator left right =>
      simp only [Expr.ungroup, Expr.binary.injEq, true_and] at h ⊢
      exact ⟨Expr.ungroup_inner h.1, Expr.ungroup_inner h.2⟩
  | property receiver name =>
      simp only [Expr.ungroup, Expr.property.injEq, and_true] at h ⊢
      exact Expr.ungroup_inner h
  | call name arguments =>
      simp only [Expr.ungroup, Expr.call.injEq, true_and] at h ⊢
      exact ungroupExprs_inner h
  | method receiver name arguments =>
      simp only [Expr.ungroup, Expr.method.injEq, true_and] at h ⊢
      exact ⟨Expr.ungroup_inner h.1, ungroupExprs_inner h.2⟩
  | object name fields methods =>
      simp only [Expr.ungroup, Expr.object.injEq, true_and] at h ⊢
      exact ⟨ungroupDeclarations_inner h.1, ungroupDefinitions_inner h.2⟩

theorem ungroupExprs_inner {es : List Expr} (h : ungroupExprs .none es = es) :
    ungroupExprs .inner es = ungroupExprs .all es := by
  cases es with
  | nil => rfl
  | cons e rest =>
      simp only [ungroupExprs, List.cons.injEq] at h ⊢
      exact ⟨Expr.ungroup_inner h.1, ungroupExprs_inner h.2⟩

theorem ungroupOption_inner {value : Option Expr} (h : ungroupOption .none value = value) :
    ungroupOption .inner value = ungroupOption .all value := by
  cases value with
  | none => rfl
  | some e =>
      simp only [ungroupOption, Option.some.injEq] at h ⊢
      exact Expr.ungroup_inner h

theorem Declaration.ungroup_inner {d : Declaration} (h : d.ungroup .none = d) :
    d.ungroup .inner = d.ungroup .all := by
  obtain ⟨name, value⟩ := d
  simp only [Declaration.ungroup, Declaration.mk.injEq, true_and] at h ⊢
  exact ungroupOption_inner h

theorem ungroupDeclarations_inner {ds : List Declaration} (h : ungroupDeclarations .none ds = ds) :
    ungroupDeclarations .inner ds = ungroupDeclarations .all ds := by
  cases ds with
  | nil => rfl
  | cons d rest =>
      simp only [ungroupDeclarations, List.cons.injEq] at h ⊢
      exact ⟨Declaration.ungroup_inner h.1, ungroupDeclarations_inner h.2⟩

theorem Definition.ungroup_inner {d : Definition} (h : d.ungroup .none = d) :
    d.ungroup .inner = d.ungroup .all := by
  obtain ⟨name, parameters, body⟩ := d
  simp only [Definition.ungroup, Definition.mk.injEq, true_and] at h ⊢
  exact ungroupStmts_inner h

theorem ungroupDefinitions_inner {ds : List Definition} (h : ungroupDefinitions .none ds = ds) :
    ungroupDefinitions .inner ds = ungroupDefinitions .all ds := by
  cases ds with
  | nil => rfl
  | cons d rest =>
      simp only [ungroupDefinitions, List.cons.injEq] at h ⊢
      exact ⟨Definition.ungroup_inner h.1, ungroupDefinitions_inner h.2⟩

theorem Stmt.ungroup_inner {statement : Stmt} (h : statement.ungroup .none = statement) :
    statement.ungroup .inner = statement.ungroup .all := by
  cases statement with
  | declare d =>
      simp only [Stmt.ungroup, Stmt.declare.injEq] at h ⊢
      exact Declaration.ungroup_inner h
  | define d =>
      simp only [Stmt.ungroup, Stmt.define.injEq] at h ⊢
      exact Definition.ungroup_inner h
  | branch condition thenBody elseBody =>
      simp only [Stmt.ungroup, Stmt.branch.injEq] at h ⊢
      exact ⟨Expr.ungroup_inner h.1, ungroupStmts_inner h.2.1, ungroupStmts_inner h.2.2⟩
  | loop name iterable body =>
      simp only [Stmt.ungroup, Stmt.loop.injEq, true_and] at h ⊢
      exact ⟨Expr.ungroup_inner h.1, ungroupStmts_inner h.2⟩
  | ret value =>
      simp only [Stmt.ungroup, Stmt.ret.injEq] at h ⊢
      exact ungroupOption_inner h
  | perform expression =>
      simp only [Stmt.ungroup, Stmt.perform.injEq] at h ⊢
      exact Expr.ungroup_inner h
  | assign target value =>
      simp only [Stmt.ungroup, Stmt.assign.injEq] at h ⊢
      refine ⟨?_, Expr.ungroup_inner h.2⟩
      have htarget := h.1
      cases target with
      | group content => exact absurd (Expr.group.inj htarget) content.other_ne
      | literal | binary | name | property | call | method | object => exact Expr.ungroup_inner htarget

theorem ungroupStmts_inner {body : List Stmt} (h : ungroupStmts .none body = body) :
    ungroupStmts .inner body = ungroupStmts .all body := by
  cases body with
  | nil => rfl
  | cons s rest =>
      simp only [ungroupStmts, List.cons.injEq] at h ⊢
      exact ⟨Stmt.ungroup_inner h.1, ungroupStmts_inner h.2⟩

end

theorem Node.ungroup_inner {tree : Node} (h : tree.ungroup .none = tree) :
    tree.ungroup .inner = tree.strip := by
  cases tree with
  | source statements => exact congrArg Node.source (ungroupStmts_inner (Node.source.inj h))
  | stmt statement => exact congrArg Node.stmt (Stmt.ungroup_inner (Node.stmt.inj h))
  | expr expression => exact congrArg Node.expr (Expr.ungroup_inner (Node.expr.inj h))

end Unmarked

namespace Grammar
open ProtoScript.Parser

/-- Nothing in the arguments of a suffix is assigned to a group. -/
def suffixPlain : String × Option (List Expr) → Prop
  | (_, none) => True
  | (_, some arguments) => ungroupExprs .none arguments = arguments

/-- Nothing in a member of an object is assigned to a group. -/
def memberPlain : Declaration ⊕ Definition → Prop
  | .inl d => d.ungroup .none = d
  | .inr d => d.ungroup .none = d

/-- Nothing in a tree of a symbol is assigned to a group. -/
def Symbol.Plain : (symbol : Symbol) → symbol.Tree → Prop
  | .statement, s => s.ungroup .none = s
  | .statements, body => ungroupStmts .none body = body
  | .declaration, d => d.ungroup .none = d
  | .definition, d => d.ungroup .none = d
  | .optional, value => ungroupOption .none value = value
  | .operand _, e => e.ungroup .none = e
  | .operands _, items => ∀ item ∈ items, item.2.ungroup .none = item.2
  | .primary, e => e.ungroup .none = e
  | .suffixes, items => ∀ item ∈ items, suffixPlain item
  | .arguments, es => ungroupExprs .none es = es
  | .moreArguments, es => ungroupExprs .none es = es
  | .members, items => ∀ item ∈ items, memberPlain item

theorem plain_applyOperands {left : Expr} {items : List (Operator × Expr)}
    (hl : left.ungroup .none = left) (hi : ∀ item ∈ items, item.2.ungroup .none = item.2) :
    (applyOperands left items).ungroup .none = applyOperands left items := by
  induction items generalizing left with
  | nil => exact hl
  | cons item items ih =>
      obtain ⟨hitem, hitems⟩ := List.forall_mem_cons.mp hi
      refine ih ?_ hitems
      rw [Expr.ungroup, hl, hitem]

theorem plain_applySuffixes {receiver : Expr} {items : List (String × Option (List Expr))}
    (hr : receiver.ungroup .none = receiver) (hi : ∀ item ∈ items, suffixPlain item) :
    (applySuffixes receiver items).ungroup .none = applySuffixes receiver items := by
  induction items generalizing receiver with
  | nil => exact hr
  | cons item items ih =>
      obtain ⟨hitem, hitems⟩ := List.forall_mem_cons.mp hi
      refine ih ?_ hitems
      rcases item with ⟨name, _ | arguments⟩ <;> simp_all [applySuffix, Expr.ungroup, suffixPlain]

theorem plain_members {items : List (Declaration ⊕ Definition)} (h : ∀ item ∈ items, memberPlain item) :
    ungroupDeclarations .none (fieldsOf items) = fieldsOf items ∧
      ungroupDefinitions .none (methodsOf items) = methodsOf items := by
  induction items with
  | nil => exact ⟨rfl, rfl⟩
  | cons item items ih =>
      obtain ⟨hitem, hitems⟩ := List.forall_mem_cons.mp h
      rcases item with d | d <;>
        simp_all [memberPlain, ungroupDeclarations, ungroupDefinitions]

theorem ofTarget_eq {target : Expr} (h : target.isTarget = true) (removal : Removal)
    (stripped : Expr) : target.ofTarget removal stripped = stripped := by
  cases target with
  | name | property => rfl
  | literal | group | binary | call | method | object => cases h

/-- What the grammar derives assigns to no group. -/
theorem Derives.plain {symbol : Symbol} {ts : List Token} {tree : symbol.Tree}
    (h : Derives symbol ts tree) : symbol.Plain tree := by
  -- Part by part, nothing changes; only the target of an assignment is looked at as a whole.
  induction h <;> simp only [Symbol.Plain, ungroupStmts, Stmt.ungroup, Declaration.ungroup,
    Definition.ungroup, ungroupOption, ungroupExprs, Expr.ungroup, Expr.ofGroup, List.forall_mem_cons,
    suffixPlain, memberPlain] at *
  case chain ihf ihi => exact plain_applyOperands ihf ihi
  case secondary ihp ihi => exact plain_applySuffixes ihp ihi
  case object ih =>
    obtain ⟨hfields, hmethods⟩ := plain_members ih
    rw [hfields, hmethods]
  case assign ha _ iht ihv => rw [ofTarget_eq ha, iht, ihv]
  case operands ihr ihi => exact ⟨ihr, ihi⟩
  all_goals simp_all

/-- Nothing in a tree that a source spells is assigned to a group. -/
theorem plain_of_spells {rule : Rule} {ts : List Token} {tree : Node} (h : Spells rule ts tree) :
    tree.ungroup .none = tree := by
  cases rule <;> cases tree <;> try exact h.elim
  case source.source => exact congrArg Node.source (Derives.plain h)
  case statement.stmt => exact congrArg Node.stmt (Derives.plain h)
  case expression.expr => exact congrArg Node.expr (Derives.plain h)

end Grammar

end ProtoScript
