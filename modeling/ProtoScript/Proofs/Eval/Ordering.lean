import Mathlib.Data.String.Basic
import ProtoScript.Eval.Native
import ProtoScript.Proofs.Decimal.Exact
import ProtoScript.Proofs.Eval.Outcome
import ProtoScript.Proofs.Text.Messages
import ProtoScript.Proofs.Value.Equality

/-!
# Comparison is a total order

Two integers, two decimals, two strings or two characters can be compared, and nothing else. Each of these
kinds is ordered by a key: an integer by itself, a decimal by the number that it stands for, a text by its
characters. A key from a linear order brings all laws of an order with it, and for numbers the key of a
difference is the difference of the keys.
-/

namespace ProtoScript

namespace Decimal
variable {a b : Decimal}

/-- At the common scale decimals compare as the numbers that they stand for. -/
theorem less_iff : a.less b = true ↔ a.toRat < b.toRat := by
  have ha := scaled_mul_zpow (d := a) (Int.min_le_left a.exponent b.exponent)
  have hb := scaled_mul_zpow (d := b) (Int.min_le_right a.exponent b.exponent)
  rw [less, decide_eq_true_eq, ← ha, ← hb, mul_lt_mul_iff_left₀ (zpow_ten_pos _), Int.cast_lt]
  rfl

theorem atMost_iff : a.atMost b = true ↔ a.toRat ≤ b.toRat := by
  have ha := scaled_mul_zpow (d := a) (Int.min_le_left a.exponent b.exponent)
  have hb := scaled_mul_zpow (d := b) (Int.min_le_right a.exponent b.exponent)
  rw [atMost, decide_eq_true_eq, ← ha, ← hb, mul_le_mul_iff_left₀ (zpow_ten_pos _), Int.cast_le]
  rfl

section Sign
variable {precision : Nat} {exact : ℚ} {scale : Int} {minus : Prop} {r : Except Limit Decimal}

/-- There is a result exactly if neither the precision nor the exact result is too large. -/
theorem Gives.exists_ok_iff (h : Gives precision exact scale minus r) :
    (∃ d, r = .ok d) ↔ precision ≤ maxPrecision ∧ |exact| < 10 ^ (largestPower + 1) := by
  cases h with
  | refused hp => exact ⟨by simp, fun h => absurd h.1 (not_le.mpr hp)⟩
  | overflow hp hlarge => exact ⟨by simp, fun h => absurd h.2 (not_lt.mpr hlarge)⟩
  | exactly hp hlarge hlow hhigh hd he hn => exact ⟨fun _ => ⟨hp, hlarge⟩, fun _ => ⟨_, rfl⟩⟩
  | underflow hp hlarge hlow he hd hn => exact ⟨fun _ => ⟨hp, hlarge⟩, fun _ => ⟨_, rfl⟩⟩
  | lowered hp hzero hhigh he hd hn =>
      refine ⟨fun _ => ⟨hp, ?_⟩, fun _ => ⟨_, rfl⟩⟩
      rw [hzero, abs_zero]
      exact zpow_ten_pos _

/-- A result below zero comes from an exact one below zero. The converse holds unless the result was rounded
to zero. -/
theorem Gives.sign (h : Gives precision exact scale minus (.ok a)) :
    (a.toRat < 0 → exact < 0) ∧
      (exact < 0 → a.toRat < 0 ∨ a.toRat = 0 ∧ scale < smallestPower precision) := by
  cases h with
  | exactly hp hlarge hlow hhigh hd he hn =>
      rw [hd]
      exact ⟨id, .inl⟩
  | lowered hp hzero hhigh he hd hn =>
      rw [hzero, toRat_eq_zero_iff.mpr hd]
      exact ⟨id, .inl⟩
  | underflow hp hlarge hlow he hd hn =>
      have hpow := zpow_ten_pos (smallestPower precision)
      have hscaled : exact < 0 ↔ exact / 10 ^ smallestPower precision < 0 := by
        rw [div_lt_iff₀ hpow, zero_mul]
      rw [hscaled, toRat_neg_iff, ← signed_neg_iff, toRat_eq_zero_iff, ← signed_eq_zero_iff]
      refine ⟨hd.neg_of_neg, fun hneg => ?_⟩
      rcases (hd.nonpos_of_neg hneg).lt_or_eq with hlt | heq
      · exact .inl hlt
      · exact .inr ⟨heq, hlow⟩

end Sign

end Decimal

/-- The numbers of the characters of a text. -/
def codePoints (text : String) : List Nat :=
  text.toList.map Char.toNat

/-- Lists of characters compare as the lists of their numbers. -/
theorem strictMono_map_toNat : StrictMono (List.map Char.toNat) :=
  fun _ _ h => List.map_lt (fun _ _ hlt => hlt) h

theorem codePoints_lt_iff {v w : String} : v < w ↔ codePoints v < codePoints w :=
  String.lt_iff_toList_lt.trans strictMono_map_toNat.lt_iff_lt.symm

theorem codePoints_le_iff {v w : String} : v ≤ w ↔ codePoints v ≤ codePoints w :=
  String.le_iff_toList_le.trans strictMono_map_toNat.le_iff_le.symm

theorem codePoints_injective : Function.Injective codePoints :=
  strictMono_map_toNat.injective.comp fun _ _ => String.toList_inj.mp

/-- The operators that compare by order. -/
def Operator.Compares : Operator → Prop
  | .less | .lessEqual | .greater | .greaterEqual => True
  | _ => False

/-- What an operator that compares says of two keys. -/
def Operator.Relates {α : Type} [LinearOrder α] (operator : Operator) (x y : α) : Prop :=
  match operator with
  | .less => x < y
  | .lessEqual => x ≤ y
  | .greater => y < x
  | .greaterEqual => y ≤ x
  | _ => False

/-- Two values that can be compared. -/
inductive Value.Comparable : Value → Value → Prop
  | integers (m n : Int) : Comparable (.int m) (.int n)
  | decimals (d e : Decimal) : Comparable (.decimal d) (.decimal e)
  | strings (v w : String) : Comparable (.string v) (.string w)
  | characters (v w : String) : Comparable (.character v) (.character w)

namespace Eval
open Value
variable {a b c : Value} {s : State} {operator : Operator}

theorem applyOperator_of_compares (ho : operator.Compares) :
    applyOperator operator a b = compare operator a b := by
  cases operator <;> first | rfl | exact ho.elim

theorem compare_of_comparable (h : Comparable a b) :
    compare operator a b s = .ok (.bool (relate operator a b)) s := by
  cases h <;> rfl

/-- Values can be compared if they are of one kind and that kind is ordered. -/
theorem comparable_iff {left right : Kind} (ha : a.kind? = some left) (hb : b.kind? = some right) :
    Comparable a b ↔ orderedKinds.contains left = true ∧ left = right := by
  constructor
  · intro h
    cases h <;> cases ha <;> cases hb <;> exact ⟨rfl, rfl⟩
  · rintro ⟨hordered, rfl⟩
    cases a <;> cases ha <;> cases hordered <;> cases b <;> cases hb <;> constructor

section Kinds
variable {k : Kind} {kinds : List Kind}

theorem kind_eq_pure (ha : a.kind? = some k) : kind a = pure k := by
  rw [kind, Value.kind, ha]
  rfl

theorem expectKind_of_mem (ha : a.kind? = some k) (hk : kinds.contains k = true) :
    expectKind kinds a = pure () := by
  rw [expectKind, kind_eq_pure ha, pure_bind, if_pos hk]

/-- A value of another kind is shown in the error, if it can be shown. -/
theorem expectKind_of_not_mem (ha : a.kind? = some k) (hk : kinds.contains k ≠ true) :
    ∃ fault, expectKind kinds a s = .error fault s ∧
      ∀ text, ProtoScript.display s.heap a = .ok text →
        fault = .error { cause := .wrongKind kinds k text } := by
  have hmismatch :
      expectKind kinds a = display a >>= fun text => raise (.wrongKind kinds k text) := by
    rw [expectKind, kind_eq_pure ha, pure_bind, if_neg hk, mismatch, kind_eq_pure ha, pure_bind]
  have hdisplay : display a s = ofExcept (ProtoScript.display s.heap a) s := rfl
  rw [hmismatch, bind_apply, hdisplay]
  cases ProtoScript.display s.heap a with
  | error fault =>
      refine ⟨fault, rfl, ?_⟩
      intro text htext
      cases htext
  | ok text =>
      refine ⟨Fault.ofError { cause := .wrongKind kinds k text }, rfl, ?_⟩
      intro text' htext
      cases htext
      exact Fault.ofError_of_legible trivial

end Kinds

/-- Comparing other values fails, and with a mismatch of types if the first can be shown. -/
theorem compare_of_not_comparable (ha : a.kind?.isSome = true) (hb : b.kind?.isSome = true)
    (h : ¬Comparable a b) :
    ∃ fault, compare operator a b s = .error fault s ∧
      ∀ text, ProtoScript.display s.heap a = .ok text →
        ∃ e, fault = .error e ∧ e.cause.category = .typeMismatch := by
  obtain ⟨left, ha⟩ := Option.isSome_iff_exists.mp ha
  obtain ⟨right, hb⟩ := Option.isSome_iff_exists.mp hb
  rw [comparable_iff ha hb, not_and] at h
  by_cases hordered : orderedKinds.contains left = true
  · refine ⟨Fault.ofError { cause := .incomparable left right operator }, ?_, ?_⟩
    · rw [compare, expectKind_of_mem ha hordered, pure_bind, kind_eq_pure ha, pure_bind, kind_eq_pure hb,
        pure_bind, if_pos (h hordered)]
      rfl
    · intro _ _
      exact ⟨_, Fault.ofError_of_legible trivial, rfl⟩
  · obtain ⟨fault, hfault, htext⟩ := expectKind_of_not_mem (s := s) ha hordered
    refine ⟨fault, ?_, fun text ht => ⟨_, htext text ht, rfl⟩⟩
    rw [compare, bind_apply, hfault]

/-- The operator gives TRUE for the values. -/
def Holds (s : State) (operator : Operator) (a b : Value) : Prop :=
  applyOperator operator a b s = .ok (.bool true) s

/-- The laws of a total order, for three values. -/
structure TotallyOrdered (s : State) (a b c : Value) : Prop where
  refl : Holds s .lessEqual a a
  trans (hab : Holds s .lessEqual a b) (hbc : Holds s .lessEqual b c) : Holds s .lessEqual a c
  total : Holds s .lessEqual a b ∨ Holds s .lessEqual b a
  less_iff : Holds s .less a b ↔ ¬Holds s .lessEqual b a
  greater_iff : Holds s .greater a b ↔ Holds s .less b a
  greaterEqual_iff : Holds s .greaterEqual a b ↔ Holds s .lessEqual b a

/-- Values of one kind are compared by their keys in a linear order. -/
structure Keyed {ι α : Type} [LinearOrder α] (inject : ι → Value) (key : ι → α) : Prop where
  comparable (x y : ι) : Comparable (inject x) (inject y)
  relate (operator : Operator) (ho : operator.Compares) (x y : ι) :
    relate operator (inject x) (inject y) = true ↔ operator.Relates (key x) (key y)

section Keys
variable {ι α : Type} [LinearOrder α] {inject : ι → Value} {key : ι → α}

/-- It is enough to know two of the four comparisons: the others are their negations. -/
theorem keyed_of_relate (less atMost : ι → ι → Bool)
    (hcomparable : ∀ x y, Comparable (inject x) (inject y))
    (hrelate : ∀ operator x y,
      relate operator (inject x) (inject y) = relationHolds operator (less x y) (atMost x y))
    (hless : ∀ x y, less x y = true ↔ key x < key y)
    (hatMost : ∀ x y, atMost x y = true ↔ key x ≤ key y) : Keyed inject key where
  comparable := hcomparable
  relate operator ho x y := by
    rw [hrelate]
    cases operator with
    | less => exact hless x y
    | lessEqual => exact hatMost x y
    | greater =>
        rw [relationHolds, Bool.not_eq_true', ← Bool.not_eq_true, hatMost, not_le]
        rfl
    | greaterEqual =>
        rw [relationHolds, Bool.not_eq_true', ← Bool.not_eq_true, hless, not_lt]
        rfl
    | equal | unequal | add | subtract | multiply | divide | and | or | unknown => exact ho.elim

theorem keyed_int : Keyed Value.int id :=
  keyed_of_relate (fun m n => decide (m < n)) (fun m n => decide (m ≤ n)) .integers
    (fun _ _ _ => rfl) (fun _ _ => decide_eq_true_iff) fun _ _ => decide_eq_true_iff

theorem keyed_decimal : Keyed Value.decimal Decimal.toRat :=
  keyed_of_relate Decimal.less Decimal.atMost .decimals (fun _ _ _ => rfl)
    (fun _ _ => Decimal.less_iff) fun _ _ => Decimal.atMost_iff

/-- Texts are compared character by character. -/
theorem keyed_string : Keyed Value.string codePoints :=
  keyed_of_relate (fun v w => decide (v < w)) (fun v w => decide (v ≤ w)) .strings
    (fun _ _ _ => rfl)
    (fun _ _ => decide_eq_true_iff.trans codePoints_lt_iff)
    fun _ _ => decide_eq_true_iff.trans codePoints_le_iff

theorem keyed_character : Keyed Value.character codePoints :=
  keyed_of_relate (fun v w => decide (v < w)) (fun v w => decide (v ≤ w)) .characters
    (fun _ _ _ => rfl)
    (fun _ _ => decide_eq_true_iff.trans codePoints_lt_iff)
    fun _ _ => decide_eq_true_iff.trans codePoints_le_iff

theorem holds_iff_relate (operator : Operator) (ho : operator.Compares) (h : Comparable a b) :
    Holds s operator a b ↔ relate operator a b = true := by
  rw [Holds, applyOperator_of_compares ho, compare_of_comparable h, EStateM.Result.ok.injEq,
    Value.bool.injEq, and_iff_left rfl]

namespace Keyed
variable (hk : Keyed inject key) (x y z : ι)
include hk

/-- The operator says of the values what it says of their keys. -/
theorem holds_iff (operator : Operator) (ho : operator.Compares) :
    Holds s operator (inject x) (inject y) ↔ operator.Relates (key x) (key y) :=
  (holds_iff_relate operator ho (hk.comparable x y)).trans (hk.relate operator ho x y)

theorem holds_less : Holds s .less (inject x) (inject y) ↔ key x < key y :=
  hk.holds_iff x y .less trivial

theorem holds_lessEqual : Holds s .lessEqual (inject x) (inject y) ↔ key x ≤ key y :=
  hk.holds_iff x y .lessEqual trivial

/-- What is compared by keys is totally ordered. -/
theorem totallyOrdered : TotallyOrdered s (inject x) (inject y) (inject z) where
  refl := (hk.holds_lessEqual x x).mpr (le_refl _)
  trans hxy hyz := by
    rw [hk.holds_lessEqual] at hxy hyz ⊢
    exact hxy.trans hyz
  total := by
    rw [hk.holds_lessEqual, hk.holds_lessEqual]
    exact le_total _ _
  less_iff := by rw [hk.holds_less, hk.holds_lessEqual, not_le]
  greater_iff := by
    rw [hk.holds_less]
    exact hk.holds_iff x y .greater trivial
  greaterEqual_iff := by
    rw [hk.holds_lessEqual]
    exact hk.holds_iff x y .greaterEqual trivial

/-- Two values are at most each other exactly if their keys are the same. -/
theorem antisymm_iff :
    Holds s .lessEqual (inject x) (inject y) ∧ Holds s .lessEqual (inject y) (inject x) ↔
      key x = key y := by
  rw [hk.holds_lessEqual, hk.holds_lessEqual, le_antisymm_iff]

end Keyed

end Keys

/-- Values that can be compared are of one kind, so one key orders all three. -/
theorem totallyOrdered_of_comparable (hab : Comparable a b) (hbc : Comparable b c) :
    TotallyOrdered s a b c := by
  cases hab with
  | integers m n =>
      cases hbc
      exact keyed_int.totallyOrdered _ _ _
  | decimals d e =>
      cases hbc
      exact keyed_decimal.totallyOrdered _ _ _
  | strings v w =>
      cases hbc
      exact keyed_string.totallyOrdered _ _ _
  | characters v w =>
      cases hbc
      exact keyed_character.totallyOrdered _ _ _

theorem holds_equal_iff : Holds s .equal a b ↔ a.equals b = .ok true := by
  rw [Holds, applyOperator, bind_apply]
  cases a.equals b with
  | ok same => simp [ofExcept, pure, EStateM.pure]
  | error fault => constructor <;> intro h <;> cases h

/-- Except for decimals, which also have a scale, values that are at most each other are equal. -/
theorem antisymm_iff_equal (h : Comparable a b) (hkind : a.kind? ≠ some .decimal) :
    Holds s .lessEqual a b ∧ Holds s .lessEqual b a ↔ Holds s .equal a b := by
  rw [holds_equal_iff]
  cases h with
  | integers m n =>
      rw [keyed_int.antisymm_iff]
      simp [equals]
  | decimals d e => exact absurd rfl hkind
  | strings v w =>
      rw [keyed_string.antisymm_iff, codePoints_injective.eq_iff]
      simp [equals]
  | characters v w =>
      rw [keyed_character.antisymm_iff, codePoints_injective.eq_iff]
      simp [equals]

/-- A comparison gives a truth value exactly for values that can be compared. -/
theorem exists_ok_iff_comparable (ho : operator.Compares) (ha : a.kind?.isSome = true)
    (hb : b.kind?.isSome = true) :
    (∃ r, applyOperator operator a b s = .ok (.bool r) s) ↔ Comparable a b := by
  rw [applyOperator_of_compares ho]
  constructor
  · rintro ⟨r, hr⟩
    by_contra hnot
    obtain ⟨fault, hfault, -⟩ := compare_of_not_comparable ha hb hnot
    cases hr.symm.trans hfault
  · intro h
    exact ⟨_, compare_of_comparable h⟩

/-- A difference of integers is below zero if the first is less than the second. -/
theorem less_iff_int_difference (m n : Int) : Holds s .less (.int m) (.int n) ↔ m - n < 0 := by
  rw [keyed_int.holds_less, id, id, sub_neg]

theorem subtract_decimals (d e : Decimal) (s : State) :
    applyOperator .subtract (.decimal d) (.decimal e) s = ofDecimal (d.subtract e) s :=
  rfl

/-- So is a difference of decimals, unless it is too small to be told from zero. -/
theorem less_of_decimal_difference {d e difference : Decimal} (h : d.subtract e = .ok difference) :
    (difference.toRat < 0 → Holds s .less (.decimal d) (.decimal e)) ∧
      (Holds s .less (.decimal d) (.decimal e) → difference.toRat < 0 ∨
        difference.toRat = 0 ∧
          min d.exponent e.exponent < Decimal.smallestPower (d.workingPrecision [e])) := by
  have hless : Holds s .less (.decimal d) (.decimal e) ↔ d.toRat - e.toRat < 0 :=
    (keyed_decimal.holds_less d e).trans sub_neg.symm
  have hgives := Decimal.gives_subtract d e
  rw [h] at hgives
  rw [hless]
  exact hgives.sign

/-- Exactly two integers, two decimals, two strings or two characters can be compared; anything else that
can be shown is a mismatch of types. Integers are compared as such, decimals as the numbers that they stand
for, and texts by the numbers of their characters. Each of these kinds is totally ordered. Values that are at
most each other are equal, and decimals stand for the same number. An integer is less than another if the
difference of the two is less than zero. So is a decimal if there is a difference, unless this is zero because
it is too small; and there is one unless the working precision or the exact difference is too large. -/
theorem ordering_total_and_arithmetic (s : State) :
    (∀ (operator : Operator) (a b : Value),
      operator.Compares → a.kind?.isSome = true → b.kind?.isSome = true →
      ((∃ r, applyOperator operator a b s = .ok (.bool r) s) ↔ Comparable a b) ∧
      (¬Comparable a b → (∃ text, ProtoScript.display s.heap a = .ok text) →
        ∃ e, applyOperator operator a b s = .error (.error e) s ∧ e.cause.category = .typeMismatch)) ∧
    (∀ operator : Operator, operator.Compares →
      (∀ m n : Int, Holds s operator (.int m) (.int n) ↔ operator.Relates m n) ∧
      (∀ d e : Decimal, Holds s operator (.decimal d) (.decimal e) ↔ operator.Relates d.toRat e.toRat) ∧
      (∀ v w : String,
        Holds s operator (.string v) (.string w) ↔ operator.Relates (codePoints v) (codePoints w)) ∧
      ∀ v w : String,
        Holds s operator (.character v) (.character w) ↔ operator.Relates (codePoints v) (codePoints w)) ∧
    (∀ a b c : Value, Comparable a b → Comparable b c → TotallyOrdered s a b c) ∧
    (∀ a b : Value, Comparable a b → a.kind? ≠ some .decimal →
      (Holds s .lessEqual a b ∧ Holds s .lessEqual b a ↔ Holds s .equal a b)) ∧
    (∀ d e : Decimal,
      Holds s .lessEqual (.decimal d) (.decimal e) ∧ Holds s .lessEqual (.decimal e) (.decimal d) ↔
        d.toRat = e.toRat) ∧
    (∀ m n : Int, ∃ difference, applyOperator .subtract (.int m) (.int n) s = .ok (.int difference) s ∧
      (Holds s .less (.int m) (.int n) ↔ difference < 0)) ∧
    (∀ d e : Decimal, ∃ r, applyOperator .subtract (.decimal d) (.decimal e) s = ofDecimal r s ∧
      ((∃ difference, r = .ok difference) ↔ d.workingPrecision [e] ≤ Decimal.maxPrecision ∧
        |d.toRat - e.toRat| < 10 ^ (Decimal.largestPower + 1)) ∧
      ∀ difference, r = .ok difference →
        (difference.toRat < 0 → Holds s .less (.decimal d) (.decimal e)) ∧
        (Holds s .less (.decimal d) (.decimal e) → difference.toRat < 0 ∨
          difference.toRat = 0 ∧
            min d.exponent e.exponent < Decimal.smallestPower (d.workingPrecision [e]))) := by
  refine ⟨?_, fun operator ho => ⟨?_, ?_, ?_, ?_⟩, fun a b c => totallyOrdered_of_comparable,
    fun a b => antisymm_iff_equal, keyed_decimal.antisymm_iff,
    fun m n => ⟨m - n, rfl, less_iff_int_difference m n⟩,
    fun d e => ⟨d.subtract e, subtract_decimals d e s, (Decimal.gives_subtract d e).exists_ok_iff, fun _ =>
      less_of_decimal_difference⟩⟩
  · intro operator a b ho ha hb
    refine ⟨exists_ok_iff_comparable ho ha hb, ?_⟩
    rintro hnot ⟨text, ht⟩
    obtain ⟨fault, hfault, hmismatch⟩ := compare_of_not_comparable ha hb hnot
    obtain ⟨e, rfl, hcategory⟩ := hmismatch text ht
    exact ⟨e, (congrFun (applyOperator_of_compares ho) s).trans hfault, hcategory⟩
  · exact fun m n => keyed_int.holds_iff m n operator ho
  · exact fun d e => keyed_decimal.holds_iff d e operator ho
  · exact fun v w => keyed_string.holds_iff v w operator ho
  · exact fun v w => keyed_character.holds_iff v w operator ho

/-- `1.0` and `1.00` are at most each other and are above a zero with a sign, an integer cannot be compared
with them, and a capital letter comes before a small one and is not equal to it. -/
theorem ordering_total_and_arithmetic_scales :
    (∃ e,
      applyOperator .less (.decimal ⟨false, 10, -1⟩) (.int 1) .initial = .error (.error e) .initial ∧
      e.cause.category = .typeMismatch) ∧
    (Holds .initial .greater (.string "z") (.string "Z") ↔ [90] < [122]) ∧
    TotallyOrdered .initial (.decimal ⟨true, 0, 0⟩) (.decimal ⟨false, 10, -1⟩) (.decimal ⟨false, 100, -2⟩) ∧
    (Holds .initial .lessEqual (.string "Z") (.string "z") ∧
      Holds .initial .lessEqual (.string "z") (.string "Z") ↔
        Holds .initial .equal (.string "Z") (.string "z")) ∧
    (Holds .initial .lessEqual (.decimal ⟨false, 10, -1⟩) (.decimal ⟨false, 100, -2⟩) ∧
      Holds .initial .lessEqual (.decimal ⟨false, 100, -2⟩) (.decimal ⟨false, 10, -1⟩)) ∧
    ((⟨true, 10, -1⟩ : Decimal).toRat < 0 →
      Holds .initial .less (.decimal ⟨true, 0, 0⟩) (.decimal ⟨false, 10, -1⟩)) := by
  obtain ⟨hcomparable, hrelates, horder, hequal, hsame, -, hdifference⟩ :=
    ordering_total_and_arithmetic .initial
  have hnot : ¬Comparable (.decimal ⟨false, 10, -1⟩) (.int 1) := by
    intro h
    cases h
  obtain ⟨r, hsubtract, -, hless⟩ := hdifference ⟨true, 0, 0⟩ ⟨false, 10, -1⟩
  have hr : r = .ok ⟨true, 10, -1⟩ := by
    cases r <;> cases hsubtract
    rfl
  refine ⟨(hcomparable .less _ _ trivial rfl rfl).2 hnot ⟨_, rfl⟩,
    (hrelates .greater trivial).2.2.1 "z" "Z", horder _ _ _ (.decimals _ _) (.decimals _ _),
    hequal _ _ (.strings _ _) (by decide), (hsame _ _).mpr ?_, (hless _ hr).1⟩
  norm_num [Decimal.toRat, Decimal.signed]

/-- The first number is less than the second, but there is no difference that would tell. -/
theorem less_without_difference :
    let a : Decimal := ⟨false, 1, -879609302220800000⟩
    let b : Decimal := ⟨false, 1, 879600506127777792⟩
    Holds .initial .less (.decimal a) (.decimal b) ∧
      applyOperator .subtract (.decimal a) (.decimal b) .initial =
        .error (.breakdown (.limit .precision)) .initial := by
  have hsubtract : (⟨false, 1, -879609302220800000⟩ : Decimal).subtract ⟨false, 1, 879600506127777792⟩ =
      .error .precision := rfl
  have hone (e : Int) : (⟨false, 1, e⟩ : Decimal).toRat = 10 ^ e := by
    rw [Decimal.toRat, Decimal.signed]
    norm_num
  intro a b
  refine ⟨(keyed_decimal.holds_less a b).mpr ?_, ?_⟩
  · rw [hone, hone]
    exact zpow_lt_zpow_right₀ (by norm_num) (by norm_num)
  · rw [subtract_decimals, hsubtract]
    rfl

end Eval

end ProtoScript
