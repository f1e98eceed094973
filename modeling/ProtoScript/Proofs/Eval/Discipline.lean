import ProtoScript.Proofs.Eval.Outcome
import ProtoScript.Proofs.Eval.Stock

/-!
# Disciplines of steps

Evaluation puts together a few steps that read or change the state, or fail. A discipline says which values,
frames, nodes and texts may come up on the way, and gives a judgement on steps; it has one rule for each of
those few steps, and one for each way of putting steps together. What is made of these steps then obeys the
discipline. Here this is shown of steps that do not ask for the present frame: checks of kinds, operators and
native functions.
-/

namespace ProtoScript
open ProtoScript.Text ProtoScript.Text.Alphabet

/-- The value is no text, and has no parts. -/
def Value.Bare : Value → Prop
  | .nil | .bool _ | .int _ | .decimal _ => True
  | _ => False

/-- The cause is about neither an object nor something that only a given tree can hold. -/
def Cause.Common : Cause → Prop
  | .noProperty .. | .noMethod .. | .unknownOperator _ | .notTarget _ => False
  | _ => True

/-- The line is made of the stock. -/
def Stock.Writes (S : Stock) : Event → Prop
  | .console text => S.Spells text
  | .step _ detail => S.Spells detail

/-- What the steps of a run obey. Runs go on from one world to a later one, and what holds of a value or of a
frame in a world holds in all later ones. -/
structure Discipline extends Stock where
  World : Type
  Before : World → World → Prop
  /-- The values that may come up. -/
  value : World → Value → Prop
  /-- The frames that may be used. -/
  frame : World → FrameId → Prop
  /-- The step keeps to the discipline from the world on, and its value is as `post` says. -/
  Obeys {α : Type} (w : World) (post : World → α → Prop) (step : Eval α) : Prop
  refl (w : World) : Before w w
  trans {u v w : World} (huv : Before u v) (hvw : Before v w) : Before u w
  value_later {u w : World} {v : Value} (h : Before u w) (hv : value u v) : value w v
  frame_later {u w : World} {f : FrameId} (h : Before u w) (hf : frame u f) : frame w f
  value_bare {w : World} {v : Value} (hv : v.Bare) : value w v
  value_text {w : World} {text : String} (ht : toAlphabet.Spells text) :
    value w (.character text) ∧ value w (.string text)
  value_list {w : World} {items : List Value} : value w (.list items) ↔ ∀ item ∈ items, value w item
  closure {w : World} {function : Function} {d : Definition} {scope : FrameId}
    (hb : function.body = .closure d scope) (hf : value w (.function function)) :
    node (.stmt (.define d)) ∧ frame w scope
  title {w : World} {o : Object} (ho : value w (.object o)) : toAlphabet.Spells o.title
  pure {w : World} {α : Type} {post : World → α → Prop} {a : α} (ha : ∀ x, Before w x → post x a) :
    Obeys w post (Pure.pure a)
  bind {w : World} {α β : Type} {mid : World → α → Prop} {post : World → β → Prop} {m : Eval α}
    {k : α → Eval β} (hm : Obeys w mid m) (hk : ∀ x a, Before w x → mid x a → Obeys x post (k a)) :
    Obeys w post (m >>= k)
  blame {w : World} {α : Type} {post : World → α → Prop} {n : Node} {m : Eval α} (hn : node n)
    (hm : Obeys w post m) : Obeys w post (Eval.blame n m)
  within {w : World} {α : Type} {post : World → α → Prop} {f : FrameId} {m : Eval α}
    (hpost : ∀ x y a, Before x y → post x a → post y a) (hf : frame w f) (hm : Obeys w post m) :
    Obeys w post (Eval.within f m)
  endless {w : World} {α : Type} {post : World → α → Prop} :
    Obeys w post (MonadExcept.throw Fault.endless)
  limit {w : World} {α : Type} {post : World → α → Prop} (reason : Decimal.Limit) :
    Obeys w post (MonadExcept.throw (Fault.breakdown (.limit reason)))
  raise {w : World} {α : Type} {post : World → α → Prop} {cause : Cause} (hc : cause.Common)
    (hw : ∀ word ∈ cause.words, toAlphabet.Spells word) : Obeys w post (Eval.raise cause)
  raiseAt {w : World} {α : Type} {post : World → α → Prop} {n : Node} {cause : Cause} (hn : node n)
    (hc : cause.Common) (hw : ∀ word ∈ cause.words, toAlphabet.Spells word) :
    Obeys w post (Eval.raiseAt n cause)
  noProperty {w : World} {α : Type} {post : World → α → Prop} {o : Object} {name : String}
    (ho : value w (.object o)) (hn : toAlphabet.Spells name) :
    Obeys w post (Eval.raise (.noProperty o.title name))
  noMethod {w : World} {α : Type} {post : World → α → Prop} {o : Object} {name : String}
    (ho : value w (.object o)) (hn : toAlphabet.Spells name) :
    Obeys w post (Eval.raise (.noMethod o.title name))
  unknownOperator {w : World} {α : Type} {post : World → α → Prop} {symbol : String} {left right : Expr}
    (hn : node (.expr (.binary (.unknown symbol) left right))) :
    Obeys w post (Eval.raise (.unknownOperator (.unknown symbol)))
  notTarget {w : World} {α : Type} {post : World → α → Prop} {target value : Expr}
    (hn : node (.stmt (.assign target value))) (ht : target.isTarget = false) :
    Obeys w post (Eval.raise (.notTarget target.form))
  kind {w : World} {v : Value} (hv : value w v) : Obeys w (fun _ _ => True) (Eval.kind v)
  equals {w : World} {left right : Value} (hl : value w left) (hr : value w right) :
    Obeys w (fun _ _ => True) (Eval.ofExcept (left.equals right))
  display {w : World} {v : Value} (hv : value w v) :
    Obeys w (fun _ text => toAlphabet.Spells text) (Eval.display v)
  displayInt {w : World} (n : Int) :
    Obeys w (fun _ text => toAlphabet.Spells text) (Eval.ofExcept (ProtoScript.displayInt n))
  inspect {w : World} {v : Value} (hv : value w v) :
    Obeys w (fun _ text => toAlphabet.Spells text) (Eval.ofExcept (ProtoScript.inspect v))
  write {w : World} {event : Event} (he : toStock.Writes event) : Obeys w (fun _ _ => True) (Eval.write event)
  lookup {w : World} {o : Object} (ho : value w (.object o)) (name : String) :
    Obeys w (fun x found => ∀ v ∈ found, value x v) (Eval.lookup o name)
  allocate {w : World} {f : FrameId} (hf : frame w f) : Obeys w frame (Eval.allocate (some f))
  createObject {w : World} {name : Option String} {fields : List Declaration} {methods : List Definition}
    (hn : node (.expr (.object name fields methods))) :
    Obeys w (fun x f => frame x f ∧ value x (.object { name, frame := f })) (Eval.allocate none)
  createFunction {w : World} {d : Definition} {f : FrameId} (hd : node (.stmt (.define d)))
    (hf : frame w f) :
    Obeys w (fun x function => value x (.function function)) (Eval.createFunction d.name (.closure d f))
  defineIn {w : World} {f : FrameId} {name : String} {v : Value} (hf : frame w f)
    (hn : toAlphabet.Spells name) (hv : value w v) : Obeys w (fun _ _ => True) (Eval.defineIn f name v)
  setMember {w : World} {o : Object} {name : String} {v : Value} (ho : value w (.object o))
    (hn : toAlphabet.Spells name) (hv : value w v) : Obeys w (fun _ _ => True) (Eval.setMember o name v)

namespace Discipline
open Eval
variable {D : Discipline} {w x : D.World} {α : Type} {post : D.World → α → Prop} {v : Value}

theorem value_nil : D.value w .nil :=
  D.value_bare trivial

theorem values_later {values : List Value} (h : D.Before w x) (hvs : ∀ v ∈ values, D.value w v) :
    ∀ v ∈ values, D.value x v :=
  fun v hv => D.value_later h (hvs v hv)

/-- What may come up when a step is over may come up later. -/
theorem give (hv : D.value w v) : D.Obeys w D.value (Pure.pure v) :=
  D.pure fun _ h => D.value_later h hv

theorem giveBare (hv : v.Bare) : D.Obeys w D.value (Pure.pure v) :=
  D.pure fun _ _ => D.value_bare hv

theorem done {a : α} : D.Obeys w (fun _ _ => True) (Pure.pure a) :=
  D.pure fun _ _ => trivial

theorem obeys_ite {c : Prop} [Decidable c] {m m' : Eval α} (hm : D.Obeys w post m) (hm' : D.Obeys w post m') :
    D.Obeys w post (if c then m else m') := by
  split
  · exact hm
  · exact hm'

theorem discard {m : Eval α} (hm : D.Obeys w post m) :
    D.Obeys w (fun _ _ => True) (Functor.discard m) :=
  D.bind hm fun _ _ _ _ => done

/-- A step behind one that fails is not taken. -/
theorem behindRaise {β : Type} {cause : Cause} {k : Unit → Eval β} {post : D.World → β → Prop}
    (hc : cause.Common) (hw : ∀ word ∈ cause.words, D.Spells word) :
    D.Obeys w post (Eval.raise cause >>= k) :=
  D.raise hc hw

section Checks

theorem obeys_mismatch (kinds : List Kind) (hv : D.value w v) : D.Obeys w post (mismatch kinds v) := by
  apply D.bind (D.kind hv)
  intro x kind hx _
  apply D.bind (D.display (D.value_later hx hv))
  intro y shown _ hs
  exact D.raise trivial (by simpa [Cause.words] using hs)

theorem obeys_expectKind (kinds : List Kind) (hv : D.value w v) :
    D.Obeys w (fun _ _ => True) (expectKind kinds v) := by
  apply D.bind (D.kind hv)
  intro x kind hx _
  exact obeys_ite done (obeys_mismatch kinds (D.value_later hx hv))

theorem obeys_expectBool (hv : D.value w v) : D.Obeys w (fun _ _ => True) (expectBool v) := by
  unfold expectBool
  split
  · exact done
  · exact obeys_mismatch _ hv

theorem obeys_expectList (hv : D.value w v) :
    D.Obeys w (fun x items => ∀ item ∈ items, D.value x item) (expectList v) := by
  unfold expectList
  split
  · exact D.pure fun x hx => values_later hx (D.value_list.mp hv)
  · exact obeys_mismatch _ hv

theorem obeys_expectObject (hv : D.value w v) :
    D.Obeys w (fun x o => D.value x (.object o)) (expectObject v) := by
  unfold expectObject
  split
  · exact D.pure fun x hx => D.value_later hx hv
  · exact obeys_mismatch _ hv

end Checks

section Calls

/-- The parameters of a function are bound in a frame that may be used. -/
theorem obeys_bindParameters {f : FrameId} (hf : D.frame w f) {parameters : List (String × Value)}
    (hps : ∀ pair ∈ parameters, D.Spells pair.1 ∧ D.value w pair.2) :
    D.Obeys w (fun _ _ => True) (bindParameters f parameters) := by
  induction parameters generalizing w with
  | nil => exact done
  | cons pair rest ih =>
      obtain ⟨⟨hname, hvalue⟩, hrest⟩ := List.forall_mem_cons.mp hps
      apply D.bind (D.defineIn hf hname hvalue)
      intro _ _ hx _
      refine ih (D.frame_later hx hf) fun pair hp => ?_
      exact ⟨(hrest pair hp).1, D.value_later hx (hrest pair hp).2⟩

theorem obeys_calledMethod {o : Object} (ho : D.value w (.object o)) {name : String}
    (hn : D.Spells name) :
    D.Obeys w (fun x function => D.value x (.function function)) (calledMethod o name) := by
  rw [calledMethod_eq]
  apply D.bind (D.lookup ho name)
  intro _ found hx hfound
  split
  · exact D.pure fun _ hx => D.value_later hx (hfound _ rfl)
  · exact D.raise trivial (by simpa [Cause.words] using hn)
  · exact D.noMethod (D.value_later hx ho) hn

end Calls

section Tracing
variable {values : List Value}

theorem obeys_displayAll (hvs : ∀ v ∈ values, D.value w v) :
    D.Obeys w (fun _ texts => ∀ text ∈ texts, D.Spells text) (values.mapM Eval.display) := by
  induction values generalizing w with
  | nil =>
      rw [List.mapM_nil]
      exact D.pure fun _ _ => by simp
  | cons v rest ih =>
      obtain ⟨hv, hrest⟩ := List.forall_mem_cons.mp hvs
      rw [List.mapM_cons]
      apply D.bind (D.display hv)
      intro x text hx ht
      apply D.bind (ih (values_later hx hrest))
      intro y texts _ hts
      exact D.pure fun _ _ => List.forall_mem_cons.mpr ⟨ht, hts⟩

theorem obeys_trace (tracing : Tracing) (kind : StepKind) {callee : String} (hc : D.Spells callee)
    (hvs : ∀ v ∈ values, D.value w v) :
    D.Obeys w (fun _ _ => True) (trace tracing kind callee values) := by
  cases tracing with
  | off => exact done
  | silent => exact D.bind (obeys_displayAll hvs) fun _ _ _ _ => done
  | verbose =>
      apply D.bind (obeys_displayAll hvs)
      intro x texts _ ht
      refine D.write ?_
      exact ((hc.append (spells_word (by decide))).append
        (Spells.intercalate (spells_word (by decide)) ht)).append (spells_word (by decide))

end Tracing

section Operators
variable {left right : Value} {operator : Operator}

/-- A decimal may come up wherever arithmetic gives one. -/
theorem obeys_ofDecimal (r : Except Decimal.Limit Decimal) : D.Obeys w D.value (ofDecimal r) := by
  cases r with
  | ok d => exact giveBare trivial
  | error reason => exact D.limit reason

theorem obeys_numbers (ho : D.Spells operator.symbol) (hl : D.value w left) (hr : D.value w right) :
    D.Obeys w (fun _ _ => True) (numbers operator left right) := by
  apply D.bind (obeys_expectKind _ hl)
  intro x _ hx _
  split
  · exact done
  · exact done
  · apply D.bind (D.kind (D.value_later hx hl))
    intro y _ hy _
    apply D.bind (D.kind (D.value_later (D.trans hx hy) hr))
    intro _ _ _ _
    exact D.raise trivial (by simpa [Cause.words] using ho)

theorem obeys_compare (ho : D.Spells operator.symbol) (hl : D.value w left) (hr : D.value w right) :
    D.Obeys w D.value (compare operator left right) := by
  apply D.bind (obeys_expectKind _ hl)
  intro x _ hx _
  apply D.bind (D.kind (D.value_later hx hl))
  intro y leftKind hy _
  apply D.bind (D.kind (D.value_later (D.trans hx hy) hr))
  intro _ rightKind _ _
  exact obeys_ite (behindRaise trivial (by simpa [Cause.words] using ho)) (giveBare trivial)

theorem obeys_isString (hv : D.value w v) : D.Obeys w (fun _ _ => True) (isString v) :=
  D.bind (D.kind hv) fun _ _ _ _ => done

theorem obeys_join (hl : D.value w left) (hr : D.value w right) :
    D.Obeys w D.value (do
      let leftText ← Eval.display left
      let rightText ← Eval.display right
      return .string (leftText ++ rightText)) := by
  apply D.bind (D.display hl)
  intro x leftText hx hlt
  apply D.bind (D.display (D.value_later hx hr))
  intro _ rightText _ hrt
  exact D.pure fun _ _ => (D.value_text (hlt.append hrt)).2

theorem obeys_sum (ho : D.Spells Operator.add.symbol) (hl : D.value w left) (hr : D.value w right) :
    D.Obeys w D.value (do
      match ← numbers .add left right with
      | .integers a b => return .int (a + b)
      | .decimals a b => ofDecimal (a.add b)) := by
  apply D.bind (obeys_numbers ho hl hr)
  intro _ operands _ _
  cases operands with
  | integers a b => exact giveBare trivial
  | decimals a b => exact obeys_ofDecimal _

theorem obeys_add (ho : D.Spells Operator.add.symbol) (hl : D.value w left) (hr : D.value w right) :
    D.Obeys w D.value (add left right) := by
  have hchoice (x : D.World) (hx : D.Before w x) (joins : Bool) :=
    obeys_ite (c := joins = true) (obeys_join (D.value_later hx hl) (D.value_later hx hr))
      (obeys_sum ho (D.value_later hx hl) (D.value_later hx hr))
  apply D.bind (obeys_isString hl)
  intro x leftString hx _
  cases leftString with
  | true => exact D.bind done fun y joins hy _ => hchoice y (D.trans hx hy) joins
  | false =>
      apply D.bind (obeys_isString (D.value_later hx hr))
      intro y joins hy _
      exact hchoice y (D.trans hx hy) joins

theorem obeys_divide (ho : D.Spells Operator.divide.symbol) (hl : D.value w left)
    (hr : D.value w right) : D.Obeys w D.value (divide left right) := by
  apply D.bind (obeys_numbers ho hl hr)
  intro x operands _ _
  cases operands with
  | integers a b =>
      refine obeys_ite ?_ (giveBare trivial)
      apply D.bind (D.displayInt a)
      intro _ dividend _ hd
      have hshown : D.Spells (dividend ++ " / " ++ Numeral.ofInt b) :=
        (hd.append (spells_word (by decide))).append (spells_ofInt b)
      exact behindRaise trivial (by simpa [Cause.words] using hshown)
  | decimals a b =>
      have hshown : D.Spells (a.scientific ++ " / " ++ b.scientific) :=
        ((spells_scientific a).append (spells_word (by decide))).append (spells_scientific b)
      exact obeys_ite (behindRaise trivial (by simpa [Cause.words] using hshown)) (obeys_ofDecimal _)

/-- The operator stands between two expressions, so it is one of those that the discipline knows. -/
theorem obeys_applyOperator {e e' : Expr} (hn : D.node (.expr (.binary operator e e')))
    (hand : operator ≠ .and) (hor : operator ≠ .or) (hl : D.value w left) (hr : D.value w right) :
    D.Obeys w D.value (applyOperator operator left right) := by
  have ho : D.Spells operator.symbol := D.word hn List.mem_cons_self
  cases operator with
  | equal | unequal => exact D.bind (D.equals hl hr) fun _ _ _ _ => giveBare trivial
  | less | lessEqual | greater | greaterEqual => exact obeys_compare ho hl hr
  | add => exact obeys_add ho hl hr
  | subtract | multiply =>
      apply D.bind (obeys_numbers ho hl hr)
      intro _ operands _ _
      cases operands with
      | integers a b => exact giveBare trivial
      | decimals a b => exact obeys_ofDecimal _
  | divide => exact obeys_divide ho hl hr
  | and => exact absurd rfl hand
  | or => exact absurd rfl hor
  | unknown symbol => exact D.unknownOperator hn

end Operators

section Natives
variable {values : List Value}

theorem obeys_onlyArgument {name : String} (hn : D.Spells name) (hvs : ∀ v ∈ values, D.value w v) :
    D.Obeys w D.value (onlyArgument name values) := by
  unfold onlyArgument
  split
  · exact give (hvs _ List.mem_cons_self)
  · exact D.raise trivial (by simpa [Cause.words] using hn)

theorem obeys_rangeBound (hv : D.value w v) : D.Obeys w (fun _ _ => True) (rangeBound v) := by
  unfold rangeBound
  split
  · exact done
  · apply D.bind (discard (D.kind hv))
    intro x _ hx _
    apply D.bind (D.display (D.value_later hx hv))
    intro _ shown _ hs
    exact D.raise trivial (by simpa [Cause.words] using hs)

theorem value_integersFrom (first stop : Int) : D.value w (.list (integersFrom first stop)) := by
  refine D.value_list.mpr fun item hi => ?_
  obtain ⟨offset, -, rfl⟩ := List.mem_map.mp hi
  exact D.value_bare trivial

theorem obeys_callNative (native : Native) (hvs : ∀ v ∈ values, D.value w v) :
    D.Obeys w D.value (callNative native values) := by
  cases native with
  | debug =>
      apply D.bind (obeys_onlyArgument (spells_word (by decide)) hvs)
      intro _ v _ hv
      apply D.bind (D.inspect hv)
      intro _ text _ ht
      exact D.bind (D.write ht) fun _ _ _ _ => giveBare trivial
  | print =>
      apply D.bind (obeys_onlyArgument (spells_word (by decide)) hvs)
      intro _ v _ hv
      apply D.bind (D.display hv)
      intro _ text _ ht
      exact D.bind (D.write ht) fun _ _ _ _ => giveBare trivial
  | log =>
      apply D.bind (obeys_onlyArgument (spells_word (by decide)) hvs)
      intro _ v _ hv
      apply D.bind (D.display hv)
      intro _ text hx ht
      have hline : D.Spells ("log: " ++ text) := (spells_word (by decide)).append ht
      exact D.bind (D.write hline) fun _ _ hy _ => give (D.value_later (D.trans hx hy) hv)
  | list | function => exact give (D.value_list.mpr hvs)
  | method => exact give (D.value_list.mpr fun v hv => hvs v (List.mem_of_mem_drop hv))
  | range =>
      simp only [callNative]
      split
      · next first stop =>
          obtain ⟨hfirst, hstop⟩ := List.forall_mem_cons.mp hvs
          apply D.bind (obeys_rangeBound hfirst)
          intro _ low hx _
          apply D.bind (obeys_rangeBound (D.value_later hx (hstop stop List.mem_cons_self)))
          intro _ high hy _
          refine obeys_ite ?_ (D.pure fun _ _ => value_integersFrom _ _)
          apply D.bind (D.display (D.value_later (D.trans hx hy) hfirst))
          intro _ shown _ hs
          exact behindRaise trivial (by simpa [Cause.words] using hs)
      · have hname : D.Spells "range" := spells_word (by decide)
        exact D.raise trivial (by simpa [Cause.words] using hname)

end Natives

end Discipline

end ProtoScript
