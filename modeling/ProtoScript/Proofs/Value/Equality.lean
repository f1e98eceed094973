import Mathlib.Data.List.Forall2
import ProtoScript.Proofs.Decimal.Rational
import ProtoScript.Proofs.Eval.Moves
import ProtoScript.Proofs.Value.Recursion
import ProtoScript.Value.Equality

/-!
# Equality of values is an equivalence

Equality looks at a part of a value only: it does not see the sign of zero, and of functions and objects it
sees the identity. Two values are equal exactly if these parts of them are the same, so that equality is
an equivalence. A function or an object is known by its identity, so that apart from the sign of zero the
part determines the value, and equal values are shown alike.
-/

namespace ProtoScript

namespace Decimal
variable {a b : Decimal}

/-- Equality of decimals compares the numbers that they stand for, and their exponents. -/
theorem same_iff_toRat : a.same b = true ↔ a.toRat = b.toRat ∧ a.exponent = b.exponent := by
  simp only [same, Bool.and_eq_true, decide_eq_true_eq]
  constructor
  · rintro ⟨he, hs⟩
    exact ⟨by rw [toRat, toRat, he, hs], he⟩
  · rintro ⟨hr, he⟩
    refine ⟨he, eq_signed_of_mul_zpow ?_⟩
    rw [← he, ← hr, toRat]

/-- The decimal with a plus in front of zero. -/
def unsignedZero (d : Decimal) : Decimal :=
  { d with negative := d.negative && d.coefficient ≠ 0 }

theorem same_iff_unsignedZero : a.same b = true ↔ a.unsignedZero = b.unsignedZero := by
  obtain ⟨s, m, x⟩ := a
  obtain ⟨t, n, y⟩ := b
  simp only [same, unsignedZero, signed, Bool.and_eq_true, decide_eq_true_eq, Decimal.mk.injEq]
  cases s <;> cases t <;> simp <;> omega

theorem unsignedZero_eq_self (h : ¬a.IsNegativeZero) : a.unsignedZero = a := by
  obtain ⟨s, m, x⟩ := a
  cases s with
  | false => rfl
  | true =>
      have hm : m ≠ 0 := fun hm => h ⟨rfl, hm⟩
      simp [unsignedZero, hm]

end Decimal

namespace Value

mutual

/-- The value with each value that it is made of replaced. -/
def mapLeaves (f : Value → Value) : Value → Value
  | .list items => .list (mapLeavesOfAll f items)
  | value => f value

/-- Several values with each value that they are made of replaced. -/
def mapLeavesOfAll (f : Value → Value) : List Value → List Value
  | [] => []
  | value :: rest => mapLeaves f value :: mapLeavesOfAll f rest

end

theorem mapLeaves_list (f : Value → Value) (items : List Value) :
    (Value.list items).mapLeaves f = .list (items.map (mapLeaves f)) := by
  have hall (items : List Value) : mapLeavesOfAll f items = items.map (mapLeaves f) := by
    induction items with
    | nil => rfl
    | cons item rest ih => rw [mapLeavesOfAll, ih, List.map_cons]
  rw [mapLeaves, hall]

/-- What equality sees of a value that is no list. -/
def bareLeaf : Value → Value
  | .decimal d => .decimal d.unsignedZero
  | .function f => .function { ident := f.ident, name := "", body := .native .list }
  | .object o => .object { name := none, frame := o.frame }
  | value => value

/-- What equality sees of a value: zero without its sign, functions and objects without their names. -/
def bare (value : Value) : Value :=
  value.mapLeaves bareLeaf

theorem bare_list (items : List Value) : (Value.list items).bare = .list (items.map bare) :=
  mapLeaves_list bareLeaf items

/-- No zero in the value has a minus sign. -/
def NoNegativeZero (value : Value) : Prop :=
  value.All fun leaf => ∀ d, leaf = .decimal d → ¬d.IsNegativeZero

/-- The value has a kind, and so has every value that it is made of. -/
def Proper (value : Value) : Prop :=
  value.All (· ≠ .foreign)

theorem equalsAll_eq_true_iff {as bs : List Value} (hlength : as.length = bs.length) :
    equalsAll as bs = .ok true ↔ List.Forall₂ (fun a b => a.equals b = .ok true) as bs := by
  induction as generalizing bs with
  | nil =>
      cases bs with
      | nil => exact ⟨fun _ => .nil, fun _ => rfl⟩
      | cons b bs => cases hlength
  | cons a as ih =>
      cases bs with
      | nil => cases hlength
      | cons b bs =>
          rw [List.forall₂_cons, ← ih (Nat.succ.inj hlength), equalsAll]
          cases a.equals b with
          | error fault => simp [bind, Except.bind]
          | ok same => cases same <;> simp [bind, Except.bind, pure, Except.pure]

/-- Lists are equal if they are equally long and equal item by item. -/
theorem equals_list_iff {as bs : List Value} :
    (Value.list as).equals (.list bs) = .ok true ↔
      List.Forall₂ (fun a b => a.equals b = .ok true) as bs := by
  rw [equals]
  split
  · next hlength => exact equalsAll_eq_true_iff hlength
  · next hlength =>
      constructor
      · intro h
        cases h
      · intro h
        exact absurd h.length_eq hlength

/-- Lists are related item by item if the relation compares what a function gives of the items. -/
theorem forall₂_iff_map_eq {R : Value → Value → Prop} {f : Value → Value} {as bs : List Value}
    (h : ∀ a ∈ as, ∀ b, R a b ↔ f a = f b) : List.Forall₂ R as bs ↔ as.map f = bs.map f := by
  induction as generalizing bs with
  | nil => cases bs <;> simp
  | cons a as ih =>
      obtain ⟨ha, has⟩ := List.forall_mem_cons.mp h
      cases bs with
      | nil => simp
      | cons b bs => rw [List.forall₂_cons, ha b, ih has, List.map_cons, List.map_cons, List.cons.injEq]

/-- Two values are equal if equality sees the same of them. -/
theorem equals_iff_bare {a : Value} (ha : a.Proper) (b : Value) :
    a.equals b = .ok true ↔ a.bare = b.bare := by
  induction a using Value.induction generalizing b with
  | hlist as ih =>
      cases b with
      | list bs =>
          have hitems :
              List.Forall₂ (fun a b => a.equals b = .ok true) as bs ↔ as.map bare = bs.map bare :=
            forall₂_iff_map_eq fun a hmem => ih a hmem (all_list.mp ha a hmem)
          rw [equals_list_iff, hitems, bare_list, bare_list, Value.list.injEq]
      | nil | bool | int | decimal | character | string | function | object | foreign =>
          simp [equals, bare, mapLeaves, bareLeaf]
  | hleaf a hleaf =>
      cases a with
      | list items => exact absurd rfl (hleaf items)
      | foreign => exact absurd rfl (ha .foreign (by simp [leaves]))
      | nil | bool | int | decimal | character | string | function | object =>
          cases b <;> simp [equals, bare, mapLeaves, bareLeaf, Decimal.same_iff_unsignedZero]

theorem kind?_bare (a : Value) : a.bare.kind? = a.kind? := by
  cases a <;> rfl

mutual

/-- Values that have a kind can be compared. -/
theorem exists_equals {a b : Value} (ha : a.Proper) (hb : b.Proper) : ∃ same, a.equals b = .ok same := by
  rw [equals.eq_def]
  split
  case h_1 => exact absurd rfl (ha .foreign (by simp [leaves]))
  case h_2 => exact absurd rfl (hb .foreign (by simp [leaves]))
  case h_9 as bs =>
      split
      · exact exists_equalsAll (all_list.mp ha) (all_list.mp hb)
      · exact ⟨_, rfl⟩
  all_goals exact ⟨_, rfl⟩

theorem exists_equalsAll {as bs : List Value} (ha : ∀ a ∈ as, a.Proper) (hb : ∀ b ∈ bs, b.Proper) :
    ∃ same, equalsAll as bs = .ok same := by
  cases as with
  | nil => exact ⟨_, rfl⟩
  | cons a as =>
      cases bs with
      | nil => exact ⟨_, rfl⟩
      | cons b bs =>
          obtain ⟨ha, has⟩ := List.forall_mem_cons.mp ha
          obtain ⟨hb, hbs⟩ := List.forall_mem_cons.mp hb
          obtain ⟨same, hsame⟩ := exists_equals ha hb
          rw [equalsAll, hsame]
          cases same with
          | true => exact exists_equalsAll has hbs
          | false => exact ⟨_, rfl⟩

end

end Value

/-- Which function, and which object, an identity belongs to. -/
structure Registry where
  function : Nat → Function
  object : FrameId → Object

namespace Registry
variable (r : Registry)

/-- A value that is no list and has a kind. A function or an object is the one that its identity belongs
to. -/
def Has : Value → Prop
  | .function f => r.function f.ident = f
  | .object o => r.object o.frame = o
  | .foreign => False
  | _ => True

/-- The values of a program in which identities are as the registry says. -/
def Covers (value : Value) : Prop :=
  value.All r.Has

/-- The value with the functions and objects that the identities in it belong to. -/
def restore (value : Value) : Value :=
  value.mapLeaves fun
    | .function f => .function (r.function f.ident)
    | .object o => .object (r.object o.frame)
    | leaf => leaf

variable {r}

theorem Covers.proper {value : Value} (h : r.Covers value) : value.Proper := by
  refine h.mono fun leaf hleaf => ?_
  rintro rfl
  exact hleaf

theorem restore_list (items : List Value) : r.restore (.list items) = .list (items.map r.restore) :=
  Value.mapLeaves_list _ items

/-- Apart from the sign of zero, what equality sees of a value determines it. -/
theorem restore_bare {value : Value} (h : r.Covers value)
    (hz : value.NoNegativeZero) : r.restore value.bare = value := by
  induction value using Value.induction with
  | hlist items ih =>
      have hitems : items.map (r.restore ∘ Value.bare) = items.map id :=
        List.map_congr_left fun item hi =>
          ih item hi (Value.all_list.mp h item hi) (Value.all_list.mp hz item hi)
      rw [Value.bare_list, restore_list, List.map_map, hitems, List.map_id]
  | hleaf value hleaf =>
      cases value with
      | list items => exact absurd rfl (hleaf items)
      | function f => exact congrArg Value.function (Value.all_function.mp h)
      | object o => exact congrArg Value.object (Value.all_object.mp h)
      | decimal d =>
          have hd : ¬d.IsNegativeZero := (Value.all_self rfl).mp hz d rfl
          exact congrArg Value.decimal (Decimal.unsignedZero_eq_self hd)
      | nil | bool | int | character | string | foreign => rfl

end Registry

namespace Value

/-- Equality is an equivalence of the values of a program, and respects how they are shown. Equal values
are of one kind; decimals are equal in number and exponent, lists in length and item by item, functions
and objects in identity. Equal values without a negative zero have one text, or fail alike to be shown. -/
theorem equality_respects_display (r : Registry) (h : Heap) {a b : Value} (ha : r.Covers a)
    (hb : r.Covers b) :
    (∃ same, a.equals b = .ok same) ∧
    a.equals a = .ok true ∧ a.equals b = b.equals a ∧
    (∀ c, a.equals b = .ok true → b.equals c = .ok true → a.equals c = .ok true) ∧
    (a.equals b = .ok true → a.kind? = b.kind?) ∧
    (∀ d e : Decimal, (Value.decimal d).equals (.decimal e) = .ok true ↔
      d.toRat = e.toRat ∧ d.exponent = e.exponent) ∧
    (∀ as bs : List Value, (Value.list as).equals (.list bs) = .ok true ↔
      as.length = bs.length ∧ ∀ pair ∈ as.zip bs, pair.1.equals pair.2 = .ok true) ∧
    (∀ f g : Function, (Value.function f).equals (.function g) = .ok true ↔ f.ident = g.ident) ∧
    (∀ o p : Object, (Value.object o).equals (.object p) = .ok true ↔ o.frame = p.frame) ∧
    (a.equals b = .ok true → a.NoNegativeZero → b.NoNegativeZero → display h a = display h b) := by
  have hab := equals_iff_bare ha.proper b
  have hba := equals_iff_bare hb.proper a
  refine ⟨exists_equals ha.proper hb.proper, ?_, ?_, ?_, ?_, ?_, ?_, ?_, ?_, ?_⟩
  · exact (equals_iff_bare ha.proper a).mpr rfl
  · obtain ⟨same, hsame⟩ := exists_equals ha.proper hb.proper
    obtain ⟨same', hsame'⟩ := exists_equals hb.proper ha.proper
    have hiff : same = true ↔ same' = true := by
      have htrue : a.equals b = .ok true ↔ b.equals a = .ok true := hab.trans (eq_comm.trans hba.symm)
      simpa [hsame, hsame'] using htrue
    rw [hsame, hsame', Bool.eq_iff_iff.mpr hiff]
  · intro c h₁ h₂
    have hbc := (equals_iff_bare hb.proper c).mp h₂
    exact (equals_iff_bare ha.proper c).mpr ((hab.mp h₁).trans hbc)
  · intro h₁
    rw [← kind?_bare a, hab.mp h₁, kind?_bare]
  · intro d e
    rw [equals, Except.ok.injEq, Decimal.same_iff_toRat]
  · intro as bs
    rw [equals_list_iff, List.forall₂_iff_zip]
    exact and_congr_right fun _ => ⟨fun hz pair hp => hz hp, fun hz a b hp => hz (a, b) hp⟩
  · intro f g
    simp [equals]
  · intro o p
    simp [equals]
  · intro h₁ hza hzb
    have heq : a = b := by
      rw [← r.restore_bare ha hza, hab.mp h₁, r.restore_bare hb hzb]
    rw [heq]

/-- Zeros of both signs in front of an object and a function. The lists are equal in both orders, so each
is equal to itself by way of the other, but the zeros are not shown alike. -/
theorem equality_respects_display_zero :
    let o : Object := { name := some "Box", frame := 0 }
    let f : Function := { ident := 3, name := "list", body := .native .list }
    let r : Registry := { function := fun _ => f, object := fun _ => o }
    let h : Heap := { frames := #[{ bindings := ⟨[("self", .object o)]⟩ }] }
    let minusZero : Value := .decimal ⟨true, 0, -1⟩
    let zero : Value := .decimal ⟨false, 0, -1⟩
    let minus : Value := .list [minusZero, .list [.object o, .function f]]
    let plus : Value := .list [zero, .list [.object o, .function f]]
    r.Covers minus ∧ r.Covers plus ∧ minus.equals plus = .ok true ∧ plus.equals minus = .ok true ∧
      minus.equals minus = .ok true ∧ plus.NoNegativeZero ∧ ¬minus.NoNegativeZero ∧
      display h minusZero = .ok "-0.0" ∧ display h zero = .ok "0.0" := by
  intro o f r h minusZero zero minus plus
  have hminus : r.Covers minus := by
    simp [Registry.Covers, Registry.Has, All, leaves, leavesOfAll, minus, minusZero, r]
  have hplus : r.Covers plus := by
    simp [Registry.Covers, Registry.Has, All, leaves, leavesOfAll, plus, zero, r]
  have hequal : minus.equals plus = .ok true := rfl
  obtain ⟨-, -, hsymm, htrans, -⟩ := equality_respects_display r h hminus hplus
  have hback : plus.equals minus = .ok true := hsymm.symm.trans hequal
  refine ⟨hminus, hplus, hequal, hback, htrans minus hequal hback, ?_, ?_, rfl, rfl⟩
  · simp [NoNegativeZero, Decimal.IsNegativeZero, All, leaves, leavesOfAll, plus, zero]
  · simp [NoNegativeZero, Decimal.IsNegativeZero, All, leaves, leavesOfAll, minus, minusZero]

end Value

end ProtoScript
