import ProtoScript.Proofs.Tree.Sound

/-!
# Steps that the next token decides

The parser looks at one token at a time. Each of its smallest steps is a verdict on the next token, or on
the end of the input: to take the token, to go on without it, or to end the parse there.
-/

namespace ProtoScript.Grammar
open ProtoScript.Parser

variable {α β : Type}

section Sequence
variable {p : Parse α} {f : α → Parse β} {ts : List Token}

theorem bind_of_ok {a : α} {rest : List Token} (h : p ts = .ok (a, rest)) : (p >>= f) ts = f a rest := by
  simp only [Bind.bind, StateT.bind, h, Except.bind]

theorem bind_of_error {stop : Stop} (h : p ts = .error stop) : (p >>= f) ts = .error stop := by
  simp only [Bind.bind, StateT.bind, h, Except.bind]

/-- A sequence that stops early has stopped in its first step or in its second. -/
theorem bind_eq_error {stop : Stop} (h : (p >>= f) ts = .error stop) :
    p ts = .error stop ∨ ∃ a rest, p ts = .ok (a, rest) ∧ f a rest = .error stop := by
  cases hp : p ts with
  | error early =>
      rw [bind_of_error hp] at h
      cases h
      exact .inl rfl
  | ok r =>
      obtain ⟨a, rest⟩ := r
      exact .inr ⟨a, rest, rfl, (bind_of_ok hp).symm.trans h⟩

end Sequence

/-- What the next token leads to. -/
inductive Verdict (α : Type)
  /-- The token is taken. -/
  | take (value : α)
  /-- The token is left. -/
  | stay (value : α)
  | misfit (cause : Misfit)
  | unusable (reason : Literal.Unusable)

/-- The step that follows a verdict. -/
def decideBy (verdict : Option Token → Verdict α) : Parse α := fun ts =>
  match verdict ts.head? with
  | .take value => .ok (value, ts.tail)
  | .stay value => .ok (value, ts)
  | .misfit cause => .error (.misfit cause ts)
  | .unusable reason => .error (.unusable reason)

section Step
variable {verdict : Option Token → Verdict α} {ts : List Token} {a : α}

theorem decideBy_take (h : verdict ts.head? = .take a) : decideBy verdict ts = .ok (a, ts.tail) := by
  rw [decideBy, h]

theorem decideBy_stay (h : verdict ts.head? = .stay a) : decideBy verdict ts = .ok (a, ts) := by
  rw [decideBy, h]

theorem decideBy_misfit {cause : Misfit} (h : verdict ts.head? = .misfit cause) :
    decideBy verdict ts = .error (.misfit cause ts) := by
  rw [decideBy, h]

theorem decideBy_unusable {reason : Literal.Unusable} (h : verdict ts.head? = .unusable reason) :
    decideBy verdict ts = .error (.unusable reason) := by
  rw [decideBy, h]

end Step

namespace Verdict

/-- A token with the text is taken. -/
def text (text : String) (head : Option Token) : Verdict Bool :=
  if head.any (·.literal = text) then .take true else .stay false

/-- It is seen whether the token has the text. -/
def seen (text : String) (head : Option Token) : Verdict Bool :=
  .stay (head.any (·.literal = text))

/-- The token must have the text. -/
def expected (text : String) (head : Option Token) : Verdict Unit :=
  if head.any (·.literal = text) then .take () else .misfit (.notText text)

/-- An identifier is taken. -/
def name : Option Token → Verdict (Option String)
  | some ⟨.identifier, name⟩ => .take (some name)
  | _ => .stay none

/-- The token must be an identifier. -/
def expectedName (role : NameRole) : Option Token → Verdict String
  | some ⟨.identifier, name⟩ => .take name
  | _ => .misfit (.notName role)

/-- An operator of the layer is taken. -/
def operator (layer : Layer) : Option Token → Verdict (Option Operator)
  | some token =>
      if token.literal ∈ layer.symbols then .take (some (Operator.ofSymbol token.literal))
      else .stay none
  | none => .stay none

/-- A number is taken, if it has a value. -/
def number (token : Token) : Verdict (Option Literal) :=
  match Literal.ofNumber token with
  | .ok value => .take (some value)
  | .error .exponentRange => .misfit .exponentRange
  | .error .fractional => .misfit .fractional
  | .error (.unusable reason) => .unusable reason

/-- A literal is taken. -/
def literal : Option Token → Verdict (Option Literal)
  | none => .stay none
  | some token =>
      if token.literal = "NIL" then .take (some .nil)
      else if token.literal = "TRUE" then .take (some (.bool true))
      else if token.literal = "FALSE" then .take (some (.bool false))
      else
        match token.kind with
        | .integer | .decimal => number token
        | .character => .take (some (.character (Literal.decode token.literal)))
        | .string => .take (some (.string (Literal.decode token.literal)))
        | .identifier | .operator => .stay none

/-- It is seen whether the token closes a block, which cannot be open at the end of the input. -/
def closing (closers : List String) : Option Token → Verdict Bool
  | none => .misfit (.openBlock closers)
  | some token => .stay (closers.contains token.literal)

/-- It is seen whether the input ends. -/
def ending (head : Option Token) : Verdict Bool :=
  .stay head.isNone

/-- The input must end. -/
def ended : Option Token → Verdict Unit
  | none => .stay ()
  | some _ => .misfit .notEnd

section Inversion
variable {head : Option Token}

theorem text_take {text : String} {found : Bool} (h : Verdict.text text head = .take found) :
    found = true := by
  unfold Verdict.text at h
  split at h <;> cases h
  rfl

theorem text_stay {text : String} {found : Bool} (h : Verdict.text text head = .stay found) :
    found = false := by
  unfold Verdict.text at h
  split at h <;> cases h
  rfl

theorem text_of_any {text : String} (h : head.any (·.literal = text) = false) :
    Verdict.text text head = .stay false := by
  rw [Verdict.text, h, if_neg Bool.false_ne_true]

theorem expected_ne_stay {text : String} {u : Unit} : expected text head ≠ .stay u := by
  unfold expected
  split <;> nofun

theorem name_take {found : Option String} (h : name head = .take found) : ∃ name, found = some name := by
  unfold name at h
  split at h <;> cases h
  exact ⟨_, rfl⟩

theorem name_stay {found : Option String} (h : name head = .stay found) : found = none := by
  unfold name at h
  split at h <;> cases h
  rfl

theorem expectedName_ne_stay {role : NameRole} {name : String} :
    expectedName role head ≠ .stay name := by
  unfold expectedName
  split <;> nofun

theorem operator_take {layer : Layer} {found : Option Operator}
    (h : operator layer head = .take found) : ∃ operator, found = some operator := by
  unfold operator at h
  split at h
  · split at h <;> cases h
    exact ⟨_, rfl⟩
  · cases h

theorem operator_stay {layer : Layer} {found : Option Operator}
    (h : operator layer head = .stay found) : found = none := by
  unfold operator at h
  split at h
  · split at h <;> cases h
    rfl
  · cases h
    rfl

theorem literal_take {found : Option Literal} (h : literal head = .take found) :
    ∃ value, found = some value := by
  cases head <;> grind [literal, number]

theorem literal_stay {found : Option Literal} (h : literal head = .stay found) : found = none := by
  cases head <;> grind [literal, number]

end Inversion

end Verdict

theorem looksAt_eq (text : String) : looksAt text = decideBy (.seen text) :=
  rfl

theorem accept_eq (text : String) : accept text = decideBy (.text text) := by
  funext ts
  rw [accept_apply, decideBy, Verdict.text]
  cases ts.head?.any (·.literal = text) <;> rfl

theorem expect_eq (text : String) : expect text = decideBy (.expected text) := by
  funext ts
  have h : expect text ts =
      (do unless ← decideBy (.text text) do fail (.notText text) : Parse Unit) ts := by
    rw [← accept_eq]
    rfl
  rw [h]
  simp only [Bind.bind, StateT.bind, decideBy, Verdict.text, Verdict.expected]
  cases ts.head?.any (·.literal = text) <;> rfl

theorem acceptName_eq : acceptName = decideBy .name := by
  funext ts
  rcases ts with _ | ⟨⟨kind, literal⟩, ts⟩
  · rfl
  · cases kind <;> rfl

theorem expectName_eq (role : NameRole) : expectName role = decideBy (.expectedName role) := by
  funext ts
  rcases ts with _ | ⟨⟨kind, literal⟩, ts⟩
  · rfl
  · cases kind <;> rfl

theorem acceptOperator_eq (layer : Layer) : acceptOperator layer = decideBy (.operator layer) := by
  funext ts
  rcases ts with _ | ⟨token, ts⟩
  · rfl
  · rw [acceptOperator_cons]
    by_cases h : token.literal ∈ layer.symbols <;> simp [decideBy, Verdict.operator, h]

theorem acceptLiteral_eq : acceptLiteral = decideBy .literal := by
  funext ts
  rcases ts with _ | ⟨token, ts⟩
  · rfl
  · rw [acceptLiteral_cons]
    simp only [decideBy, literalValue?, Verdict.literal, List.head?_cons, List.tail_cons]
    by_cases hnil : token.literal = "NIL"
    · simp only [if_pos hnil]
    by_cases htrue : token.literal = "TRUE"
    · simp only [if_neg hnil, if_pos htrue]
    by_cases hfalse : token.literal = "FALSE"
    · simp only [if_neg hnil, if_neg htrue, if_pos hfalse]
    simp only [if_neg hnil, if_neg htrue, if_neg hfalse]
    cases token.kind with
    | integer | decimal =>
        simp only [numberValue, Verdict.number]
        rcases Literal.ofNumber token with (_ | _ | _) | _ <;> rfl
    | character | string | identifier | operator => rfl

theorem acceptObjectName_bind (f : Option String → Parse α) :
    acceptObjectName >>= f = (do if ← looksAt "DO" then f none else acceptName >>= f) := by
  unfold acceptObjectName
  rw [bind_assoc]
  refine congrArg (looksAt "DO" >>= ·) (funext fun found => ?_)
  cases found <;> rfl

theorem parseBlock_succ (room : Nat) (closers : List String) :
    parseBlock (room + 1) closers = (do
      if ← decideBy (.closing closers) then return []
      else
        let statement ← parseStatement room
        return statement :: (← parseBlock room closers)) := by
  funext ts
  cases ts <;> rfl

theorem parseSource_succ (room : Nat) :
    parseSource (room + 1) = (do
      if ← decideBy .ending then return []
      else
        let statement ← parseStatement room
        return statement :: (← parseSource room)) := by
  funext ts
  cases ts <;> rfl

theorem parseWhole_eq (room : Nat) (rule : Rule) :
    parseWhole room rule = (do
      let node ← parseRule room rule
      decideBy .ended
      return node) := by
  refine congrArg (parseRule room rule >>= ·) (funext fun node => funext fun ts => ?_)
  cases ts <;> rfl

/-- What follows the expression at the start of a statement. -/
theorem assignment_eq (room : Nat) (expression : Expr) :
    (do
      if ← looksAt "=" then
        unless expression.isTarget do
          fail .target
        advance
        let value ← parseExpression room .logical
        expect ";"
        return Stmt.assign expression value
      else
        expect ";"
        return Stmt.perform expression) =
      if expression.isTarget then do
        if ← accept "=" then
          let value ← parseExpression room .logical
          expect ";"
          return Stmt.assign expression value
        else
          expect ";"
          return Stmt.perform expression
      else do
        if ← looksAt "=" then fail .target
        else
          expect ";"
          return Stmt.perform expression := by
  cases expression.isTarget with
  | true => exact look_advance_eq "=" _ _
  | false => rfl

end ProtoScript.Grammar
