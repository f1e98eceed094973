import ProtoScript.Proofs.Tree.Extension
import ProtoScript.Proofs.Tree.Room
import ProtoScript.Proofs.Tree.Taken

/-!
# The parser advances

Every rule of the parser goes forward through the tokens, and those for statements and expressions take at
least one. A loop of the grammar is a repetition of rounds, and each round that goes on takes a token. So
the rules that are entered inside each other, the rounds of loops among them, are at most a dozen for each
token and a few more.
-/

namespace ProtoScript.Grammar
open ProtoScript.Parser

variable {α β : Type}

section Rules

/-- The words at which a block ends, inside a branch and elsewhere. -/
def closersOf (inBranch : Bool) : List String :=
  if inBranch then ["ELSE", "END"] else ["END"]

/-- The rules of the parser, with what they are given besides the tokens. -/
inductive Routine
  | source
  | statement
  | block (inBranch : Bool)
  | declaration
  | definition
  | parameters
  | moreParameters
  | expression (layer : Layer)
  | chain (layer : Layer) (left : Expr)
  | secondary
  | suffixes (receiver : Expr)
  | arguments
  | moreArguments
  | primary
  | members

namespace Routine

/-- What a rule gives. -/
abbrev Result : Routine → Type
  | source | block _ => List Stmt
  | statement => Stmt
  | declaration => Declaration
  | definition => Definition
  | parameters | moreParameters => List String
  | expression _ | chain .. | secondary | suffixes _ | primary => Expr
  | arguments | moreArguments => List Expr
  | members => List Declaration × List Definition

/-- Follows a rule. The room is how many rules may be entered inside each other. -/
def run : (routine : Routine) → (room : Nat) → Parse routine.Result
  | source, room => parseSource room
  | statement, room => parseStatement room
  | block inBranch, room => parseBlock room (closersOf inBranch)
  | declaration, room => parseDeclaration room
  | definition, room => parseDefinition room
  | parameters, room => parseParameters room
  | moreParameters, room => parseMoreParameters room
  | expression layer, room => parseExpression room layer
  | chain layer left, room => parseChain room layer left
  | secondary, room => parseSecondary room
  | suffixes receiver, room => parseMembers room receiver
  | arguments, room => parseArguments room
  | moreArguments, room => parseMoreArguments room
  | primary, room => parsePrimary room
  | members, room => parseObjectMembers room

/-- Whether a rule has to take a token: all do but the loops, which may end at once. -/
def takes : Routine → Bool
  | statement | declaration | definition | parameters | expression _ | secondary | arguments | primary => true
  | source | block _ | moreParameters | chain .. | suffixes _ | moreArguments | members => false

theorem built (routine : Routine) (room : Nat) : Built (routine.run room) := by
  have h := builtAt room
  cases routine with
  | source => exact built_parseSource room
  | statement => exact h.statement
  | block inBranch => exact h.block _ (by cases inBranch <;> decide)
  | declaration => exact h.declaration
  | definition => exact h.definition
  | parameters => exact built_parseParameters room
  | moreParameters => exact built_parseMoreParameters room
  | expression layer => exact h.expression layer
  | chain layer left => exact h.chain layer left
  | secondary => exact h.secondary
  | suffixes receiver => exact h.suffixes receiver
  | arguments => exact h.arguments
  | moreArguments => exact h.moreArguments
  | primary => exact h.primary
  | members => exact h.members

/-- A dozen for each token and eight more is room enough for every rule. -/
theorem settles (routine : Routine) {limit room larger : Nat} (hroom : 12 * limit + 8 ≤ room)
    (hlarger : 12 * limit + 8 ≤ larger) : Settles room larger limit False routine.run := by
  have h := fitsAt room
  cases routine with
  | source => exact fits_parseSource room limit larger hroom hlarger
  | statement => exact (h.statement limit larger (by omega) (by omega)).weaken
  | block inBranch => exact h.block _ limit larger hroom hlarger
  | declaration => exact (h.declaration limit larger (by omega) (by omega)).weaken
  | definition => exact (h.definition limit larger (by omega) (by omega)).weaken
  | parameters => exact (settles_parseParameters (by omega) (by omega)).weaken
  | moreParameters => exact fits_parseMoreParameters room limit larger (by omega) (by omega)
  | expression layer =>
      have hdepth := (depth_bounds (some layer)).2
      exact (h.expression layer limit larger (by omega) (by omega)).weaken
  | chain layer left => exact h.chain layer left limit larger (by omega) (by omega)
  | secondary => exact (h.secondary limit larger (by omega) (by omega)).weaken
  | suffixes receiver => exact h.suffixes receiver limit larger (by omega) (by omega)
  | arguments => exact (h.arguments limit larger (by omega) (by omega)).weaken
  | moreArguments => exact h.moreArguments limit larger (by omega) (by omega)
  | primary => exact (h.primary limit larger (by omega) (by omega)).weaken
  | members => exact h.members limit larger (by omega) (by omega)

end Routine

end Rules

section Advance

/-- With a result of the given kind, the parser has taken a token. -/
def Advances (P : α → Prop) (p : Parse α) : Prop :=
  ∀ ts a rest, p ts = .ok (a, rest) → P a → rest.length < ts.length

theorem Built.length_le {p : Parse α} (h : Built p) {ts rest : List Token} {a : α}
    (hr : p ts = .ok (a, rest)) : rest.length ≤ ts.length := by
  obtain ⟨taken, rfl, -⟩ := h.takes.halts hr
  simp

namespace Advances
variable {P : α → Prop} {Q : β → Prop}

theorem tooDeep : Advances P (throw .tooDeep) := by
  rintro ts a rest ⟨⟩

theorem fail (cause : Misfit) : Advances P (Parser.fail cause) := by
  rintro ts a rest ⟨⟩

theorem pure {a : α} (h : ¬ P a) : Advances P (Pure.pure a) := by
  rintro ts b rest ⟨⟩ hb
  exact absurd hb h

theorem ite {c : Prop} [Decidable c] {p q : Parse α} (hp : Advances P p) (hq : Advances P q) :
    Advances P (if c then p else q) := by
  split
  · exact hp
  · exact hq

/-- A sequence takes a token if its first step does. -/
theorem first {p : Parse α} {f : α → Parse β} (h : Advances (fun _ => True) p) (hf : ∀ a, Built (f a)) :
    Advances Q (p >>= f) := by
  intro ts b rest hr _
  cases hp : p ts with
  | error stop => cases (bind_of_error hp).symm.trans hr
  | ok r =>
      obtain ⟨a, mid⟩ := r
      rw [bind_of_ok hp] at hr
      exact Nat.lt_of_le_of_lt ((hf a).length_le hr) (h ts a mid hp trivial)

/-- A step takes a token, or leaves it to those behind it. -/
theorem step {verdict : Option Token → Verdict α} (h : Verdict.InUse verdict) {f : α → Parse β}
    (htake : ∀ head a, verdict head = .take a → Built (f a))
    (hstay : ∀ head a, verdict head = .stay a → Advances Q (f a)) :
    Advances Q (decideBy verdict >>= f) := by
  intro ts b rest hr hb
  cases hv : verdict ts.head? with
  | take a =>
      obtain ⟨token, hhead, -⟩ := h.usable hv
      obtain ⟨us, rfl⟩ := List.head?_eq_some_iff.mp hhead
      rw [bind_of_ok (decideBy_take hv)] at hr
      exact Nat.lt_succ_of_le ((htake _ a hv).length_le hr)
  | stay a =>
      rw [bind_of_ok (decideBy_stay hv)] at hr
      exact hstay _ a hv ts b rest hr hb
  | misfit cause => cases (bind_of_error (decideBy_misfit hv)).symm.trans hr
  | unusable reason => cases (bind_of_error (decideBy_unusable hv)).symm.trans hr

theorem expect {text : String} (ht : text ∈ landmarks) {f : Unit → Parse β} (hf : Built (f ())) :
    Advances Q (Parser.expect text >>= f) := by
  rw [expect_eq]
  exact step (.expected ht) (fun _ _ _ => hf) fun _ _ hv => absurd hv Verdict.expected_ne_stay

theorem accept {text : String} (ht : text ∈ landmarks) {p q : Parse β} (hp : Built p)
    (hq : Advances Q q) : Advances Q (do if ← Parser.accept text then p else q) := by
  rw [accept_eq]
  refine step (.text ht) (fun head found hv => ?_) fun head found hv => ?_
  · obtain rfl := Verdict.text_take hv
    exact hp
  · obtain rfl := Verdict.text_stay hv
    exact hq

theorem look {text : String} (ht : text ∈ landmarks) {f : Bool → Parse β}
    (hf : ∀ found, Advances Q (f found)) : Advances Q (looksAt text >>= f) :=
  step (.seen ht) (fun _ _ hv => nomatch hv) fun _ found _ => hf found

end Advances

end Advance

section Taking

theorem advances_parsePrimary (room : Nat) : Advances (fun _ => True) (parsePrimary room) := by
  cases room with
  | zero => exact .tooDeep
  | succ room =>
      have h := builtAt room
      rw [parsePrimary, acceptLiteral_eq]
      refine .step .literal (fun head value hv => ?_) fun head value hv => ?_
      · obtain ⟨value, rfl⟩ := Verdict.literal_take hv
        exact .pure _
      obtain rfl := Verdict.literal_stay hv
      refine .accept (by decide) h.group (.accept (by decide) h.object ?_)
      rw [acceptName_eq]
      refine .step .name (fun _ name _ => h.reference name) fun head name hv => ?_
      obtain rfl := Verdict.name_stay hv
      exact .fail _

theorem advances_parseSecondary (room : Nat) : Advances (fun _ => True) (parseSecondary room) := by
  cases room with
  | zero => exact .tooDeep
  | succ room => exact (advances_parsePrimary room).first fun receiver => (builtAt room).suffixes receiver

theorem advances_parseExpression (room : Nat) (layer : Layer) :
    Advances (fun _ => True) (parseExpression room layer) := by
  induction room generalizing layer with
  | zero => exact .tooDeep
  | succ room ih =>
      rw [parseExpression_succ]
      refine Advances.first ?_ fun first => (builtAt room).chain layer first
      cases layer.tighter with
      | none => exact advances_parseSecondary room
      | some tighter => exact ih tighter

theorem advances_parseArguments (room : Nat) : Advances (fun _ => True) (parseArguments room) := by
  cases room with
  | zero => exact .tooDeep
  | succ room =>
      have h := builtAt room
      refine .expect (by decide) ((Built.accept ")" (by decide)).bind fun empty => .ite (.pure _) ?_)
      exact (h.expression .logical).bind fun first => h.moreArguments.bind fun more => .last ")" (by decide) _

/-- A rule that has to take a token takes one, however much room there is. -/
theorem Routine.advances (routine : Routine) (h : routine.takes = true) (room : Nat) :
    Advances (fun _ => True) (routine.run room) := by
  have hfinishes := extendsAt (Nat.le_refl room)
  cases routine with
  | statement => exact fun ts a rest hr _ => (hfinishes.statement ts a rest hr).1
  | declaration => exact fun ts a rest hr _ => (hfinishes.declaration ts a rest hr).1
  | definition => exact fun ts a rest hr _ => (hfinishes.definition ts a rest hr).1
  | parameters => exact fun ts a rest hr _ => (finishes_parseParameters (Nat.le_refl room) ts a rest hr).1
  | expression layer => exact advances_parseExpression room layer
  | secondary => exact advances_parseSecondary room
  | arguments => exact advances_parseArguments room
  | primary => exact advances_parsePrimary room
  | source | block | moreParameters | chain | suffixes | moreArguments | members => cases h

end Taking

section Loops
variable {ρ : Type}

/-- Reads items in rounds, up to the first round that has none. -/
def repeated (round : Nat → Parse (Option ρ)) : (room : Nat) → Parse (List ρ)
  | 0 => throw .tooDeep
  | room + 1 => do
      match ← round room with
      | none => return []
      | some item => return item :: (← repeated round room)

/-- The loops of the grammar, with what their results are added to. -/
inductive Loop
  | source
  | block (inBranch : Bool)
  | chain (layer : Layer) (left : Expr)
  | suffixes (receiver : Expr)
  | arguments
  | parameters
  | members

namespace Loop

/-- What a round of a loop reads. -/
abbrev Item : Loop → Type
  | source | block _ => Stmt
  | chain .. => Operator × Expr
  | suffixes _ => String × Option (List Expr)
  | arguments => Expr
  | parameters => String
  | members => Declaration ⊕ Definition

/-- One round of a loop: an item, or nothing if the loop is over. -/
def round : (loop : Loop) → (room : Nat) → Parse (Option loop.Item)
  | source, room => do
      if (← get).isEmpty then return none
      else return some (← parseStatement room)
  | block inBranch, room => do
      match (← get).head? with
      | none => fail (.openBlock (closersOf inBranch))
      | some token =>
          if (closersOf inBranch).contains token.literal then return none
          else return some (← parseStatement room)
  | chain layer _, room => do
      match ← acceptOperator layer with
      | none => return none
      | some operator => return some (operator, ← parseOperand room layer.tighter)
  | suffixes _, room => do
      if ← accept "." then
        let name ← expectName .property
        if ← looksAt "(" then return some (name, some (← parseArguments room))
        else return some (name, none)
      else return none
  | arguments, room => do
      if ← accept "," then return some (← parseExpression room .logical)
      else return none
  | parameters, _ => do
      if ← accept "," then return some (← expectName .parameter)
      else return none
  | members, room => do
      if ← looksAt "END" then return none
      else if ← looksAt "LET" then return some (.inl (← parseDeclaration room))
      else if ← looksAt "DEF" then return some (.inr (← parseDefinition room))
      else fail .notMember

/-- The rule that a loop is. -/
def routine : Loop → Routine
  | source => .source
  | block inBranch => .block inBranch
  | chain layer left => .chain layer left
  | suffixes receiver => .suffixes receiver
  | arguments => .moreArguments
  | parameters => .moreParameters
  | members => .members

/-- The result of a loop from the items of its rounds. -/
def gather : (loop : Loop) → List loop.Item → loop.routine.Result
  | source, items => items
  | block _, items => items
  | chain _ left, items => applyOperands left items
  | suffixes receiver, items => applySuffixes receiver items
  | arguments, items => items
  | parameters, items => items
  | members, items => (fieldsOf items, methodsOf items)

section Unrolled

theorem parseSource_eq (room : Nat) : parseSource room = repeated source.round room := by
  induction room with
  | zero => rfl
  | succ room ih =>
      simp only [parseSource, repeated, round, ih, bind_assoc]
      refine congrArg _ (funext fun ts => ?_)
      split
      · rfl
      · simp only [bind_assoc, pure_bind]

theorem parseBlock_eq (inBranch : Bool) (room : Nat) :
    parseBlock room (closersOf inBranch) = repeated (block inBranch).round room := by
  induction room with
  | zero => rfl
  | succ room ih =>
      simp only [parseBlock, repeated, round, ih, bind_assoc]
      refine congrArg _ (funext fun ts => ?_)
      cases ts.head? with
      | none => rfl
      | some token =>
          simp only
          split
          · rfl
          · simp only [bind_assoc, pure_bind]

theorem parseChain_eq (layer : Layer) (left : Expr) (room : Nat) :
    parseChain room layer left = applyOperands left <$> repeated (chain layer left).round room := by
  induction room generalizing left with
  | zero => rfl
  | succ room ih =>
      simp only [parseChain_succ, repeated, round, bind_assoc, map_bind]
      refine congrArg _ (funext fun operator => ?_)
      cases operator with
      | none => rfl
      | some operator =>
          simp only [bind_assoc, pure_bind, map_bind, map_pure]
          refine congrArg _ (funext fun right => ?_)
          rw [ih, map_eq_pure_bind]
          rfl

theorem parseMembers_eq (receiver : Expr) (room : Nat) :
    parseMembers room receiver = applySuffixes receiver <$> repeated (suffixes receiver).round room := by
  induction room generalizing receiver with
  | zero => rfl
  | succ room ih =>
      simp only [parseMembers, repeated, round, bind_assoc, map_bind]
      refine congrArg _ (funext fun found => ?_)
      cases found with
      | false => rfl
      | true =>
          simp only [if_true, bind_assoc]
          refine congrArg _ (funext fun name => congrArg _ (funext fun called => ?_))
          cases called with
          | false =>
              simp only [Bool.false_eq_true, if_false, pure_bind, map_bind, map_pure]
              rw [ih, map_eq_pure_bind]
              rfl
          | true =>
              simp only [if_true, bind_assoc, pure_bind, map_bind, map_pure]
              refine congrArg _ (funext fun arguments => ?_)
              rw [ih, map_eq_pure_bind]
              rfl

theorem parseMoreArguments_eq (room : Nat) :
    parseMoreArguments room = repeated arguments.round room := by
  induction room with
  | zero => rfl
  | succ room ih =>
      simp only [parseMoreArguments, repeated, round, ih, bind_assoc]
      refine congrArg _ (funext fun found => ?_)
      cases found with
      | false => rfl
      | true => simp only [if_true, bind_assoc, pure_bind]

theorem parseMoreParameters_eq (room : Nat) :
    parseMoreParameters room = repeated parameters.round room := by
  induction room with
  | zero => rfl
  | succ room ih =>
      simp only [parseMoreParameters, repeated, round, ih, bind_assoc]
      refine congrArg _ (funext fun found => ?_)
      cases found with
      | false => rfl
      | true => simp only [if_true, bind_assoc, pure_bind]

theorem parseObjectMembers_eq (room : Nat) :
    parseObjectMembers room =
      (fun items => (fieldsOf items, methodsOf items)) <$> repeated members.round room := by
  induction room with
  | zero => rfl
  | succ room ih =>
      simp only [parseObjectMembers, repeated, round, ih, bind_assoc, map_bind]
      refine congrArg _ (funext fun atEnd => ?_)
      cases atEnd with
      | true => rfl
      | false =>
          simp only [Bool.false_eq_true, if_false, bind_assoc]
          refine congrArg _ (funext fun atField => ?_)
          cases atField with
          | true => simp only [if_true, bind_assoc, pure_bind, map_bind, map_pure, bind_map_left]; rfl
          | false =>
              simp only [Bool.false_eq_true, if_false, bind_assoc]
              refine congrArg _ (funext fun atMethod => ?_)
              cases atMethod with
              | true => simp only [if_true, bind_assoc, pure_bind, map_bind, map_pure, bind_map_left]; rfl
              | false => rfl

end Unrolled

/-- A loop is its rounds one after the other. -/
theorem run_eq_repeated (loop : Loop) (room : Nat) :
    loop.routine.run room = loop.gather <$> repeated loop.round room := by
  cases loop with
  | source => exact (parseSource_eq room).trans (id_map _).symm
  | block inBranch => exact (parseBlock_eq inBranch room).trans (id_map _).symm
  | chain layer left => exact parseChain_eq layer left room
  | suffixes receiver => exact parseMembers_eq receiver room
  | arguments => exact (parseMoreArguments_eq room).trans (id_map _).symm
  | parameters => exact (parseMoreParameters_eq room).trans (id_map _).symm
  | members => exact parseObjectMembers_eq room

/-- A round that starts with a rule takes a token if the rule does. -/
theorem advances_item (routine : Routine) (h : routine.takes = true) (room : Nat) {ρ : Type}
    (item : routine.Result → ρ) {P : Option ρ → Prop} :
    Advances P (routine.run room >>= fun result => return some (item result)) :=
  (routine.advances h room).first fun _ => .pure _

/-- A round that goes on takes a token. -/
theorem advances_round (loop : Loop) (room : Nat) :
    Advances (fun item => item.isSome = true) (loop.round room) := by
  have hover {ρ : Type} : Advances (fun item => item.isSome = true) (return (none : Option ρ)) :=
    .pure Bool.false_ne_true
  have hstatement := advances_item .statement rfl room id (P := fun item => item.isSome = true)
  cases loop with
  | source =>
      have hround : source.round room = (do
          if ← decideBy .ending then return none
          else return some (← parseStatement room)) := by
        funext ts
        cases ts <;> rfl
      rw [hround]
      exact .step .ending (fun _ _ hv => nomatch hv) fun _ ended _ => .ite hover hstatement
  | block inBranch =>
      have hround : (block inBranch).round room = (do
          if ← decideBy (.closing (closersOf inBranch)) then return none
          else return some (← parseStatement room)) := by
        funext ts
        cases ts <;> rfl
      rw [hround]
      refine .step (.closing (by cases inBranch <;> decide)) (fun head _ hv => ?_) fun _ ended _ => ?_
      · cases head <;> cases hv
      · exact .ite hover hstatement
  | chain layer left =>
      have hoperand (operator : Operator) :
          Built (do return some (operator, ← parseOperand room layer.tighter)) :=
        ((builtAt room).operand _).bind fun right => .pure _
      rw [round, acceptOperator_eq]
      refine .step (.operator layer) (fun head operator hv => ?_) fun head operator hv => ?_
      · obtain ⟨operator, rfl⟩ := Verdict.operator_take hv
        exact hoperand operator
      · obtain rfl := Verdict.operator_stay hv
        exact hover
  | suffixes receiver =>
      refine .accept (by decide) ((Built.name _).bind fun name => ?_) hover
      refine (Built.look "(" (by decide)).bind fun called => .ite ?_ (.pure _)
      exact (builtAt room).arguments.bind fun arguments => .pure _
  | arguments => exact .accept (by decide) (((builtAt room).expression .logical).bind fun e => .pure _) hover
  | parameters => exact .accept (by decide) ((Built.name _).bind fun name => .pure _) hover
  | members =>
      refine .look (by decide) fun atEnd => .ite hover (.look (by decide) fun atField => .ite ?_ ?_)
      · exact advances_item .declaration rfl room Sum.inl
      refine .look (by decide) fun atMethod => .ite ?_ (.fail _)
      exact advances_item .definition rfl room Sum.inr

end Loop

end Loops

/-- Every parse ends with a tree or an error. No rule goes back or beyond the end of the input, and a rule
for statements or expressions that ends well has taken a token. Every loop is a repetition of rounds, and a
round that goes on takes a token. The rules that are entered inside each other, rounds of loops among them,
are at most a dozen for each token and eight more, so that further room changes nothing. -/
theorem parser_ends_and_advances :
    (∀ rule ts, (∃ tree, parse rule ts = .ok tree) ∨ (∃ e, parse rule ts = .error (.error e)) ∨
      ∃ reason, parse rule ts = .error (.unusable reason)) ∧
    (∀ (routine : Routine) room ts,
      (∀ result rest, routine.run room ts = .ok (result, rest) →
        rest <:+ ts ∧ (routine.takes = true → rest.length < ts.length)) ∧
      (∀ cause rest, routine.run room ts = .error (.misfit cause rest) → rest <:+ ts)) ∧
    (∀ (loop : Loop) room, loop.routine.run room = loop.gather <$> repeated loop.round room) ∧
    (∀ (loop : Loop) room ts item rest,
      loop.round room ts = .ok (some item, rest) → rest.length < ts.length) ∧
    (∀ (routine : Routine) ts room, 12 * ts.length + 8 ≤ room →
      routine.run room ts ≠ .error .tooDeep ∧
        routine.run room ts = routine.run (12 * ts.length + 8) ts) := by
  refine ⟨fun rule ts => ?_, fun routine room ts => ⟨?_, ?_⟩, Loop.run_eq_repeated, ?_, ?_⟩
  · cases hparse : parse rule ts with
    | ok tree => exact .inl ⟨tree, rfl⟩
    | error fault =>
        cases fault with
        | error e => exact .inr (.inl ⟨e, rfl⟩)
        | unusable reason => exact .inr (.inr ⟨reason, rfl⟩)
        | tooDeep => exact absurd hparse (parse_ne_tooDeep rule ts)
  · intro result rest hr
    obtain ⟨taken, rfl, -⟩ := (routine.built room).takes.halts hr
    exact ⟨List.suffix_append taken rest, fun ht => routine.advances ht room _ result rest hr trivial⟩
  · intro cause rest hr
    obtain ⟨taken, rfl, -⟩ := (routine.built room).takes.misfits hr
    exact List.suffix_append taken rest
  · exact fun loop room ts item rest hr => loop.advances_round room ts (some item) rest hr rfl
  · intro routine ts room hroom
    obtain ⟨heq, hdeep, -⟩ := routine.settles (Nat.le_refl _) hroom ts (Nat.le_refl _)
    exact ⟨heq ▸ hdeep, heq⟩

end ProtoScript.Grammar
