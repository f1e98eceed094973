import Mathlib.Logic.Relation
import ProtoScript.Tree.Basic

/-!
# The parts of a program

A node has parts, which are visited on its behalf, and words of its own: the names and texts that stand in
it and in none of its parts. What can be told of a program can be told of the parts of its parts and so on.
-/

namespace ProtoScript

/-- The text of a literal, if it has one. -/
def Literal.words : Literal → List String
  | .character text | .string text => [text]
  | _ => []

namespace Expr

/-- The parts of an expression. The members of an object are statements. -/
def parts : Expr → List Node
  | .literal _ | .name _ => []
  | .group inner => [.expr inner]
  | .binary _ left right => [.expr left, .expr right]
  | .property receiver _ => [.expr receiver]
  | .call _ arguments => arguments.map .expr
  | .method receiver _ arguments => .expr receiver :: arguments.map .expr
  | .object _ fields methods =>
      fields.map (fun d => .stmt (.declare d)) ++ methods.map (fun d => .stmt (.define d))

/-- The words of an expression itself. -/
def words : Expr → List String
  | .literal value => value.words
  | .group _ => []
  | .binary operator _ _ => [operator.symbol]
  | .name word | .property _ word | .call word _ | .method _ word _ => [word]
  | .object word _ _ => word.toList

end Expr

namespace Stmt

/-- The parts of a statement. -/
def parts : Stmt → List Node
  | .declare d => d.value.toList.map .expr
  | .define d => d.body.map .stmt
  | .branch condition thenBody elseBody => .expr condition :: (thenBody ++ elseBody).map .stmt
  | .loop _ iterable body => .expr iterable :: body.map .stmt
  | .ret value => value.toList.map .expr
  | .perform expression => [.expr expression]
  | .assign target value => [.expr target, .expr value]

/-- The words of a statement itself. -/
def words : Stmt → List String
  | .declare d => [d.name]
  | .define d => d.name :: d.parameters
  | .loop name _ _ => [name]
  | .branch .. | .ret _ | .perform _ | .assign .. => []

end Stmt

namespace Node

/-- The parts of a node. -/
def parts : Node → List Node
  | .source statements => statements.map .stmt
  | .stmt statement => statement.parts
  | .expr expression => expression.parts

/-- The words of a node itself. -/
def words : Node → List String
  | .source _ => []
  | .stmt statement => statement.words
  | .expr expression => expression.words

/-- The first node is the second one, or a part of it, or a part of a part, and so on. -/
def Within (part whole : Node) : Prop :=
  Relation.ReflTransGen (fun part whole => part ∈ whole.parts) part whole

theorem Within.refl (node : Node) : node.Within node :=
  Relation.ReflTransGen.refl

theorem Within.part {part node whole : Node} (h : node.Within whole) (hp : part ∈ node.parts) :
    part.Within whole :=
  Relation.ReflTransGen.head hp h

theorem Within.of_part {part node whole : Node} (h : part.Within node) (hp : node ∈ whole.parts) :
    part.Within whole :=
  Relation.ReflTransGen.tail h hp

/-- All words in the node and its parts have the property. -/
def AllWords (P : String → Prop) (node : Node) : Prop :=
  ∀ part : Node, part.Within node → ∀ word ∈ part.words, P word

theorem allWords_iff {P : String → Prop} {node : Node} :
    node.AllWords P ↔ (∀ word ∈ node.words, P word) ∧ ∀ part ∈ node.parts, part.AllWords P := by
  constructor
  · intro h
    exact ⟨h node (.refl _), fun part hp inner hi => h inner (hi.of_part hp)⟩
  · rintro ⟨hwords, hparts⟩ part hp
    rcases Relation.ReflTransGen.cases_tail hp with rfl | ⟨mid, hmid, hin⟩
    · exact hwords
    · exact hparts mid hin part hmid

end Node

end ProtoScript
