import ProtoScript.Proofs.Tree.Decision
import ProtoScript.Proofs.Tree.Lookahead

/-!
# The room of the parser is enough

Every rule takes a token before it comes back to itself, and fewer than a dozen rules are entered without
one. So with a dozen for each token of the input, and some for the rules in front of the first token, no
rule runs out of room, and more room changes nothing.
-/

namespace ProtoScript.Grammar
open ProtoScript.Parser

variable {α β : Type}

/-- On inputs of at most `limit` tokens, the rule does not tell `room` from `larger` and does not run out
of it. It leaves no more tokens than it finds, and fewer if it is `taking`. -/
def Settles (room larger limit : Nat) (taking : Prop) (rule : Nat → Parse α) : Prop :=
  ∀ ts, ts.length ≤ limit → rule larger ts = rule room ts ∧ rule room ts ≠ .error .tooDeep ∧
    ∀ a rest, rule room ts = .ok (a, rest) →
      rest.length ≤ ts.length ∧ (taking → rest.length < ts.length)

namespace Settles
variable {room larger limit : Nat} {taking : Prop}

theorem pure (a : α) : Settles room larger limit False fun _ => Pure.pure a := by
  refine fun ts _ => ⟨rfl, nofun, ?_⟩
  rintro b rest ⟨⟩
  exact ⟨Nat.le_refl _, False.elim⟩

theorem fail (cause : Misfit) :
    Settles room larger limit taking fun _ => (Parser.fail cause : Parse α) :=
  fun _ _ => ⟨rfl, nofun, nofun⟩

theorem weaken {rule : Nat → Parse α} (h : Settles room larger limit True rule) :
    Settles room larger limit taking rule := by
  intro ts hts
  obtain ⟨heq, hroom, hleft⟩ := h ts hts
  refine ⟨heq, hroom, fun a rest hr => ?_⟩
  obtain ⟨hle, hlt⟩ := hleft a rest hr
  exact ⟨hle, fun _ => hlt trivial⟩

theorem ite {c : Prop} [Decidable c] {p q : Nat → Parse α} (hp : Settles room larger limit taking p)
    (hq : Settles room larger limit taking q) :
    Settles room larger limit taking fun room => if c then p room else q room := by
  split
  · exact hp
  · exact hq

section Sequence
variable {rule : Nat → Parse α} {f : α → Nat → Parse β} {first second : Prop}

/-- A sequence takes a token if one of its steps does. -/
theorem seq (h : Settles room larger limit first rule)
    (hf : ∀ a, ∀ fewer ≤ limit, (first → fewer < limit) → Settles room larger fewer second (f a))
    (htaking : taking → first ∨ second) :
    Settles room larger limit taking fun room => rule room >>= fun a => f a room := by
  intro ts hts
  obtain ⟨heq, hroom, hleft⟩ := h ts hts
  cases hr : rule room ts with
  | error stop =>
      simp only [bind_of_error hr, bind_of_error (heq.trans hr)]
      refine ⟨trivial, ?_, nofun⟩
      rintro ⟨⟩
      exact hroom hr
  | ok r =>
      obtain ⟨a, mid⟩ := r
      obtain ⟨hle, hlt⟩ := hleft a mid hr
      simp only [bind_of_ok hr, bind_of_ok (heq.trans hr)]
      obtain ⟨heq', hroom', hleft'⟩ := hf a mid.length (Nat.le_trans hle hts)
        (fun hfirst => Nat.lt_of_lt_of_le (hlt hfirst) hts) mid (Nat.le_refl _)
      refine ⟨heq', hroom', fun b rest hr => ?_⟩
      obtain ⟨hle', hlt'⟩ := hleft' b rest hr
      refine ⟨Nat.le_trans hle' hle, fun ht => ?_⟩
      rcases htaking ht with hfirst | hsecond
      · exact Nat.lt_of_le_of_lt hle' (hlt hfirst)
      · exact Nat.lt_of_lt_of_le (hlt' hsecond) hle

theorem bind (h : Settles room larger limit False rule)
    (hf : ∀ a, ∀ fewer ≤ limit, Settles room larger fewer taking (f a)) :
    Settles room larger limit taking fun room => rule room >>= fun a => f a room :=
  h.seq (fun a fewer hle _ => hf a fewer hle) .inr

/-- Behind a step that takes a token there are fewer tokens, and no further one has to be taken. -/
theorem next (h : Settles room larger limit True rule)
    (hf : ∀ a, ∀ fewer < limit, Settles room larger fewer False (f a)) :
    Settles room larger limit taking fun room => rule room >>= fun a => f a room :=
  h.seq (fun a fewer _ hlt => hf a fewer (hlt trivial)) fun _ => .inl trivial

theorem map (g : α → β) (h : Settles room larger limit taking rule) :
    Settles room larger limit taking fun room => g <$> rule room := by
  simp only [map_eq_pure_bind]
  exact h.seq (fun a fewer _ _ => .pure _) .inl

end Sequence

section Step

/-- Only a token that is there can be taken. -/
theorem step {verdict : Option Token → Verdict α} {f : α → Nat → Parse β}
    (hnone : ∀ a, verdict none ≠ .take a)
    (htake : ∀ token a, verdict (some token) = .take a →
      ∀ fewer < limit, Settles room larger fewer False (f a))
    (hstay : ∀ head a, verdict head = .stay a → Settles room larger limit taking (f a)) :
    Settles room larger limit taking fun room => decideBy verdict >>= fun a => f a room := by
  intro ts hts
  cases hv : verdict ts.head? with
  | take a =>
      cases ts with
      | nil => exact absurd hv (hnone a)
      | cons token us =>
          simp only [bind_of_ok (decideBy_take hv), List.tail_cons]
          obtain ⟨heq, hroom, hleft⟩ := htake token a hv us.length hts us (Nat.le_refl _)
          refine ⟨heq, hroom, fun b rest hr => ?_⟩
          have hlt : rest.length < (token :: us).length := Nat.lt_succ_of_le (hleft b rest hr).1
          exact ⟨Nat.le_of_lt hlt, fun _ => hlt⟩
  | stay a =>
      simp only [bind_of_ok (decideBy_stay hv)]
      exact hstay _ a hv ts hts
  | misfit cause =>
      simp only [bind_of_error (decideBy_misfit hv)]
      exact ⟨trivial, nofun, nofun⟩
  | unusable reason =>
      simp only [bind_of_error (decideBy_unusable hv)]
      exact ⟨trivial, nofun, nofun⟩

theorem accept {text : String} {p q : Nat → Parse β}
    (hp : ∀ fewer < limit, Settles room larger fewer False p) (hq : Settles room larger limit taking q) :
    Settles room larger limit taking fun room =>
      (do if ← Parser.accept text then p room else q room) := by
  simp only [accept_eq]
  refine .step nofun (fun token found hv => ?_) fun head found hv => ?_
  · obtain rfl := Verdict.text_take hv
    exact hp
  · obtain rfl := Verdict.text_stay hv
    exact hq

theorem look {text : String} {f : Bool → Nat → Parse β}
    (h : ∀ found, Settles room larger limit taking (f found)) :
    Settles room larger limit taking fun room => looksAt text >>= fun found => f found room := by
  simp only [looksAt_eq]
  exact .step nofun nofun fun _ found _ => h found

theorem expect {text : String} {f : Unit → Nat → Parse β}
    (h : ∀ fewer < limit, Settles room larger fewer False (f ())) :
    Settles room larger limit taking fun room => Parser.expect text >>= fun u => f u room := by
  simp only [expect_eq]
  exact .step nofun (fun _ _ _ => h) fun _ _ hv => absurd hv Verdict.expected_ne_stay

theorem name {role : NameRole} {f : String → Nat → Parse β}
    (h : ∀ name, ∀ fewer < limit, Settles room larger fewer False (f name)) :
    Settles room larger limit taking fun room => expectName role >>= fun name => f name room := by
  simp only [expectName_eq]
  exact .step nofun (fun _ name _ => h name) fun _ _ hv => absurd hv Verdict.expectedName_ne_stay

theorem acceptName {f : Option String → Nat → Parse β}
    (hsome : ∀ name, ∀ fewer < limit, Settles room larger fewer False (f (some name)))
    (hnone : Settles room larger limit taking (f none)) :
    Settles room larger limit taking fun room => Parser.acceptName >>= fun name => f name room := by
  simp only [acceptName_eq]
  refine .step nofun (fun token found hv => ?_) fun head found hv => ?_
  · obtain ⟨name, rfl⟩ := Verdict.name_take hv
    exact hsome name
  · obtain rfl := Verdict.name_stay hv
    exact hnone

theorem acceptOperator {layer : Layer} {f : Option Operator → Nat → Parse β}
    (hsome : ∀ operator, ∀ fewer < limit, Settles room larger fewer False (f (some operator)))
    (hnone : Settles room larger limit taking (f none)) :
    Settles room larger limit taking fun room =>
      Parser.acceptOperator layer >>= fun operator => f operator room := by
  simp only [acceptOperator_eq]
  refine .step nofun (fun token found hv => ?_) fun head found hv => ?_
  · obtain ⟨operator, rfl⟩ := Verdict.operator_take hv
    exact hsome operator
  · obtain rfl := Verdict.operator_stay hv
    exact hnone

theorem acceptLiteral {f : Option Literal → Nat → Parse β}
    (hsome : ∀ value, ∀ fewer < limit, Settles room larger fewer False (f (some value)))
    (hnone : Settles room larger limit taking (f none)) :
    Settles room larger limit taking fun room =>
      Parser.acceptLiteral >>= fun value => f value room := by
  simp only [acceptLiteral_eq]
  refine .step nofun (fun token found hv => ?_) fun head found hv => ?_
  · obtain ⟨value, rfl⟩ := Verdict.literal_take hv
    exact hsome value
  · obtain rfl := Verdict.literal_stay hv
    exact hnone

/-- A last token. -/
theorem last (text : String) (a : α) :
    Settles room larger limit taking fun _ => (do Parser.expect text; return a) :=
  .expect fun _ _ => .pure a

end Step

end Settles

/-- At `room` the rule has room enough for inputs of a length for which a dozen for each token and `cost`
more fit in. -/
def Fits (cost : Nat) (taking : Prop) (rule : Nat → Parse α) (room : Nat) : Prop :=
  ∀ limit larger, 12 * limit + cost ≤ room → 12 * limit + cost ≤ larger →
    Settles room larger limit taking rule

namespace Fits
variable {cost room : Nat} {taking : Prop} {rule : Nat → Parse α}

theorem zero (hcost : 0 < cost) : Fits cost taking rule 0 := by
  intro limit larger hroom _
  omega

theorem succ (hcost : 0 < cost)
    (h : ∀ limit larger, 12 * limit + cost ≤ room + 1 → 12 * limit + cost ≤ larger + 1 →
      Settles room larger limit taking fun room => rule (room + 1)) :
    Fits cost taking rule (room + 1) := by
  intro limit larger hroom hlarger
  cases larger with
  | zero => omega
  | succ larger => exact h limit larger hroom hlarger

end Fits

section Parameters

theorem fits_parseMoreParameters (room : Nat) : Fits 1 False parseMoreParameters room := by
  induction room with
  | zero => exact .zero (by decide)
  | succ room ih =>
      refine .succ (by decide) fun limit larger hroom hlarger => ?_
      refine .accept (fun n hn => .name fun name m hm => ?_) (.pure _)
      exact (ih m larger (by omega) (by omega)).bind fun names k hk => .pure _

theorem settles_parseParameters {limit room larger : Nat} (hroom : 12 * limit ≤ room)
    (hlarger : 12 * limit ≤ larger) : Settles room larger limit True parseParameters := by
  refine .expect fun n hn => .acceptName (fun name m hm => ?_) ?_
  · refine (fits_parseMoreParameters room m larger (by omega) (by omega)).bind fun names k hk => ?_
    exact (Settles.pure _).bind fun names k hk => .last ")" names
  · exact (Settles.pure _).bind fun names k hk => .last ")" names

end Parameters

/-- How many rules are entered in front of a token, for every rule. -/
structure FitsAt (room : Nat) : Prop where
  statement : Fits 7 True parseStatement room
  block (closers : List String) : Fits 8 False (parseBlock · closers) room
  declaration : Fits 1 True parseDeclaration room
  definition : Fits 1 True parseDefinition room
  expression (layer : Layer) : Fits (depth (some layer)) True (parseExpression · layer) room
  chain (layer : Layer) (left : Expr) : Fits 1 False (parseChain · layer left) room
  secondary : Fits 2 True parseSecondary room
  suffixes (receiver : Expr) : Fits 1 False (parseMembers · receiver) room
  arguments : Fits 1 True parseArguments room
  moreArguments : Fits 1 False parseMoreArguments room
  primary : Fits 1 True parsePrimary room
  members : Fits 2 False parseObjectMembers room

namespace FitsAt
variable {room : Nat} (h : FitsAt room)
include h

theorem operand (level : Option Layer) : Fits (depth level) True (parseOperand · level) room := by
  cases level with
  | none => exact h.secondary
  | some layer => exact h.expression layer

theorem logical {limit larger : Nat} (hroom : 12 * limit + 6 ≤ room)
    (hlarger : 12 * limit + 6 ≤ larger) :
    Settles room larger limit True (parseExpression · .logical) :=
  h.expression .logical limit larger hroom hlarger

theorem declaration_succ : Fits 1 True parseDeclaration (room + 1) := by
  refine .succ (by decide) fun limit larger hroom hlarger => ?_
  refine .expect fun n hn => .name fun name m hm => .accept (fun k hk => ?_) ?_
  · exact ((h.logical (by omega) (by omega)).map some).next fun value i hi => .last ";" _
  · exact (Settles.pure _).bind fun value k hk => .last ";" _

theorem definition_succ : Fits 1 True parseDefinition (room + 1) := by
  refine .succ (by decide) fun limit larger hroom hlarger => ?_
  refine .expect fun n hn => .name fun name m hm => ?_
  refine (settles_parseParameters (by omega) (by omega)).next fun parameters k hk => ?_
  refine .expect fun i hi => ?_
  exact (h.block ["END"] i larger (by omega) (by omega)).bind fun body j hj => .last "END" _

theorem block_succ (closers : List String) : Fits 8 False (parseBlock · closers) (room + 1) := by
  refine .succ (by decide) fun limit larger hroom hlarger => ?_
  simp only [parseBlock_succ]
  refine .step nofun nofun fun head closed _ => .ite (.pure _) ?_
  refine (h.statement limit larger (by omega) (by omega)).next fun first n hn => ?_
  exact (h.block closers n larger (by omega) (by omega)).bind fun rest m hm => .pure _

theorem expression_succ (layer : Layer) :
    Fits (depth (some layer)) True (parseExpression · layer) (room + 1) := by
  have hdepth := depth_tighter layer
  refine .succ (by omega) fun limit larger hroom hlarger => ?_
  simp only [parseExpression_succ]
  refine (h.operand layer.tighter limit larger (by omega) (by omega)).next fun first n hn => ?_
  exact h.chain layer first n larger (by omega) (by omega)

theorem chain_succ (layer : Layer) (left : Expr) :
    Fits 1 False (parseChain · layer left) (room + 1) := by
  have hdepth := (depth_bounds layer.tighter).2
  refine .succ (by decide) fun limit larger hroom hlarger => ?_
  simp only [parseChain_succ]
  refine .acceptOperator (fun operator n hn => ?_) (.pure _)
  refine (h.operand layer.tighter n larger (by omega) (by omega)).next fun right m hm => ?_
  exact h.chain layer _ m larger (by omega) (by omega)

theorem secondary_succ : Fits 2 True parseSecondary (room + 1) := by
  refine .succ (by decide) fun limit larger hroom hlarger => ?_
  refine (h.primary limit larger (by omega) (by omega)).next fun receiver n hn => ?_
  exact h.suffixes receiver n larger (by omega) (by omega)

theorem suffixes_succ (receiver : Expr) : Fits 1 False (parseMembers · receiver) (room + 1) := by
  refine .succ (by decide) fun limit larger hroom hlarger => ?_
  refine .accept (fun n hn => .name fun name m hm => .look fun found => .ite ?_ ?_) (.pure _)
  · refine (h.arguments m larger (by omega) (by omega)).next fun arguments k hk => ?_
    exact h.suffixes _ k larger (by omega) (by omega)
  · exact h.suffixes _ m larger (by omega) (by omega)

theorem arguments_succ : Fits 1 True parseArguments (room + 1) := by
  refine .succ (by decide) fun limit larger hroom hlarger => ?_
  refine .expect fun n hn => .accept (fun m hm => .pure _) ?_
  refine (h.logical (by omega) (by omega)).next fun first m hm => ?_
  exact (h.moreArguments m larger (by omega) (by omega)).bind fun more k hk => .last ")" _

theorem moreArguments_succ : Fits 1 False parseMoreArguments (room + 1) := by
  refine .succ (by decide) fun limit larger hroom hlarger => ?_
  refine .accept (fun n hn => ?_) (.pure _)
  refine (h.logical (by omega) (by omega)).next fun first m hm => ?_
  exact (h.moreArguments m larger (by omega) (by omega)).bind fun more k hk => .pure _

/-- An object behind its name. -/
theorem objectBody {limit larger : Nat} (hroom : 12 * limit ≤ room) (hlarger : 12 * limit ≤ larger)
    (name : Option String) : Settles room larger limit False fun room => (do
      expect "DO"
      let (fields, methods) ← parseObjectMembers room
      expect "END"
      return Expr.object name fields methods) := by
  refine .expect fun n hn => ?_
  exact (h.members n larger (by omega) (by omega)).bind fun members m hm => .last "END" _

theorem primary_succ : Fits 1 True parsePrimary (room + 1) := by
  refine .succ (by decide) fun limit larger hroom hlarger => ?_
  refine .acceptLiteral (fun value n hn => .pure _) ?_
  refine .accept (fun n hn => ?_) (.accept (fun n hn => ?_) ?_)
  · exact (h.logical (by omega) (by omega)).next fun inner m hm => .last ")" _
  · simp only [acceptObjectName_bind]
    refine .look fun atBody => .ite (h.objectBody (by omega) (by omega) none) (.acceptName ?_ ?_)
    · exact fun name m hm => h.objectBody (by omega) (by omega) (some name)
    · exact h.objectBody (by omega) (by omega) none
  · refine .acceptName (fun name n hn => .look fun found => .ite ?_ (.pure _)) (.fail _)
    exact (h.arguments n larger (by omega) (by omega)).next fun arguments m hm => .pure _

theorem members_succ : Fits 2 False parseObjectMembers (room + 1) := by
  refine .succ (by decide) fun limit larger hroom hlarger => ?_
  refine .look fun atEnd => .ite (.pure _) (.look fun atField => .ite ?_ ?_)
  · refine (h.declaration limit larger (by omega) (by omega)).next fun d n hn => ?_
    exact (h.members n larger (by omega) (by omega)).bind fun members m hm => .pure _
  refine .look fun atMethod => .ite ?_ (.fail _)
  refine (h.definition limit larger (by omega) (by omega)).next fun d n hn => ?_
  exact (h.members n larger (by omega) (by omega)).bind fun members m hm => .pure _

section Statements
variable {limit larger : Nat} (hroom : 12 * limit ≤ room) (hlarger : 12 * limit ≤ larger)
include hroom hlarger

/-- A branch behind its condition. -/
theorem branch (condition : Expr) : Settles room larger limit False fun room => (do
    expect "DO"
    let thenBody ← parseBlock room ["ELSE", "END"]
    let elseBody ← if ← accept "ELSE" then parseBlock room ["END"] else pure []
    expect "END"
    return Stmt.branch condition thenBody elseBody) := by
  refine .expect fun n hn => ?_
  refine (h.block ["ELSE", "END"] n larger (by omega) (by omega)).bind fun thenBody m hm => ?_
  refine .accept (fun k hk => ?_) ((Settles.pure _).bind fun elseBody k hk => .last "END" _)
  exact (h.block ["END"] k larger (by omega) (by omega)).bind fun elseBody i hi => .last "END" _

/-- A RETURN behind its value. -/
theorem ret (value : Option Expr) : Settles room larger limit False fun room => (do
    if ← accept "IF" then
      let condition ← parseExpression room .logical
      expect ";"
      return Stmt.branch condition [.ret value] []
    else
      expect ";"
      return Stmt.ret value) := by
  refine .accept (fun n hn => ?_) (.last ";" _)
  exact (h.logical (by omega) (by omega)).next fun condition m hm => .last ";" _

/-- A statement behind the expression at its start. -/
theorem assignment (expression : Expr) : Settles room larger limit False fun room => (do
    if ← looksAt "=" then
      unless expression.isTarget do
        fail .target
      advance
      let value ← parseExpression room .logical
      expect ";"
      return Stmt.assign expression value
    else
      expect ";"
      return Stmt.perform expression) := by
  simp only [assignment_eq]
  refine .ite (.accept (fun n hn => ?_) (.last ";" _)) (.look fun found => .ite (.fail _) (.last ";" _))
  exact (h.logical (by omega) (by omega)).next fun value m hm => .last ";" _

end Statements

theorem statement_succ : Fits 7 True parseStatement (room + 1) := by
  refine .succ (by decide) fun limit larger hroom hlarger => ?_
  refine .look fun atLet => .ite ?_ (.look fun atDef => .ite ?_ ?_)
  · exact (h.declaration limit larger (by omega) (by omega)).next fun d n hn => .pure _
  · exact (h.definition limit larger (by omega) (by omega)).next fun d n hn => .pure _
  refine .accept (fun n hn => ?_) (.accept (fun n hn => ?_) (.accept (fun n hn => ?_) ?_))
  · refine (h.logical (by omega) (by omega)).next fun condition m hm => ?_
    exact h.branch (by omega) (by omega) condition
  · refine .name fun name m hm => .expect fun k hk => ?_
    refine (h.logical (by omega) (by omega)).next fun iterable i hi => .expect fun j hj => ?_
    exact (h.block ["END"] j larger (by omega) (by omega)).bind fun body _ _ => .last "END" _
  · refine .look fun atEnd => .look fun atIf => ?_
    refine (Settles.pure _).bind fun bare m hm => .ite ?_ ?_
    · exact (Settles.pure _).bind fun value k hk => h.ret (by omega) (by omega) value
    · refine ((h.logical (by omega) (by omega)).map some).next fun value k hk => ?_
      exact h.ret (by omega) (by omega) value
  · refine (h.logical (by omega) (by omega)).next fun expression n hn => ?_
    exact h.assignment (by omega) (by omega) expression

end FitsAt

theorem fitsAt (room : Nat) : FitsAt room := by
  induction room with
  | zero =>
      exact {
        statement := .zero (by decide)
        block := fun _ => .zero (by decide)
        declaration := .zero (by decide)
        definition := .zero (by decide)
        expression := fun layer => .zero (by cases layer <;> decide)
        chain := fun _ _ => .zero (by decide)
        secondary := .zero (by decide)
        suffixes := fun _ => .zero (by decide)
        arguments := .zero (by decide)
        moreArguments := .zero (by decide)
        primary := .zero (by decide)
        members := .zero (by decide) }
  | succ room h =>
      exact {
        statement := h.statement_succ
        block := h.block_succ
        declaration := h.declaration_succ
        definition := h.definition_succ
        expression := h.expression_succ
        chain := h.chain_succ
        secondary := h.secondary_succ
        suffixes := h.suffixes_succ
        arguments := h.arguments_succ
        moreArguments := h.moreArguments_succ
        primary := h.primary_succ
        members := h.members_succ }

theorem fits_parseSource (room : Nat) : Fits 8 False parseSource room := by
  induction room with
  | zero => exact .zero (by decide)
  | succ room ih =>
      refine .succ (by decide) fun limit larger hroom hlarger => ?_
      simp only [parseSource_succ]
      refine .step nofun nofun fun head ended _ => .ite (.pure _) ?_
      refine ((fitsAt room).statement limit larger (by omega) (by omega)).next fun first n hn => ?_
      exact (ih n larger (by omega) (by omega)).bind fun rest m hm => .pure _

section Whole
variable {limit room larger : Nat} (rule : Rule) (hroom : 12 * limit + 8 ≤ room)
  (hlarger : 12 * limit + 8 ≤ larger)
include hroom hlarger

theorem settles_parseRule : Settles room larger limit False (parseRule · rule) := by
  cases rule with
  | source => exact (fits_parseSource room limit larger hroom hlarger).map _
  | statement => exact ((fitsAt room).statement limit larger (by omega) (by omega)).weaken.map _
  | expression => exact ((fitsAt room).logical (by omega) (by omega)).weaken.map _

theorem settles_parseWhole : Settles room larger limit False (parseWhole · rule) := by
  simp only [parseWhole_eq]
  refine (settles_parseRule rule hroom hlarger).bind fun node n hn => ?_
  exact .step nofun (fun _ _ hv => nomatch hv) fun _ _ _ => .pure _

end Whole

theorem length_le_roomFor (ts : List Token) : 12 * ts.length + 8 ≤ roomFor ts :=
  Nat.add_le_add_left (by decide) _

/-- More room than a parse starts with changes nothing. -/
theorem parseWhole_roomFor (rule : Rule) (ts : List Token) {larger : Nat} (h : roomFor ts ≤ larger) :
    parseWhole larger rule ts = parseWhole (roomFor ts) rule ts := by
  have hroom := length_le_roomFor ts
  exact (settles_parseWhole rule hroom (Nat.le_trans hroom h) ts (Nat.le_refl _)).1

/-- The room that a parse starts with is never used up. -/
theorem parse_ne_tooDeep (rule : Rule) (ts : List Token) : parse rule ts ≠ .error .tooDeep := by
  have hroom := length_le_roomFor ts
  have hne := (settles_parseWhole rule hroom hroom ts (Nat.le_refl _)).2.1
  unfold parse
  split
  · nofun
  · nofun
  · nofun
  · next hstop => exact absurd hstop hne

end ProtoScript.Grammar
