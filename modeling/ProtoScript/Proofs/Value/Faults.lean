import ProtoScript.Value.Equality
import ProtoScript.Value.Inspect

/-!
# What can go wrong with a value

Showing a value fails only if an integer in it is too long, or if an object contains itself; comparing
values fails only on foreign ones. None of these is an error of the language, so no node is to blame.
-/

namespace ProtoScript
variable {α β : Type} {P : Fault → Prop}

/-- Whatever fault a result is, it has the property. -/
def FailsOnly (P : Fault → Prop) (result : Except Fault α) : Prop :=
  ∀ fault, result = .error fault → P fault

namespace FailsOnly

theorem ok (a : α) : FailsOnly P (.ok a) := by
  intro fault h
  cases h

theorem error {fault : Fault} (h : P fault) : FailsOnly P (.error fault : Except Fault α) := by
  rintro _ ⟨⟩
  exact h

theorem bind {x : Except Fault α} {k : α → Except Fault β} (hx : FailsOnly P x)
    (hk : ∀ a, FailsOnly P (k a)) : FailsOnly P (x >>= k) := by
  cases x with
  | ok a => exact hk a
  | error fault => exact .error (hx fault rfl)

theorem mapM {step : α → Except Fault β} (h : ∀ a, FailsOnly P (step a)) (items : List α) :
    FailsOnly P (items.mapM step) := by
  induction items with
  | nil => exact .ok _
  | cons item rest ih =>
      rw [List.mapM_cons]
      exact .bind (h item) fun _ => .bind ih fun _ => .ok _

end FailsOnly

theorem kind_failsOnly (h : P (.breakdown .notAValue)) (v : Value) : FailsOnly P v.kind := by
  cases v with
  | foreign => exact .error h
  | nil | bool | int | decimal | character | string | list | function | object => exact .ok _

theorem displayInt_failsOnly (hlimit : P (.breakdown .digitLimit)) (n : Int) :
    FailsOnly P (displayInt n) := by
  unfold displayInt
  split
  · exact .ok _
  · exact .error hlimit

mutual

theorem displayWith_failsOnly (hlimit : P (.breakdown .digitLimit))
    {showObject : Object → Except Fault String} (hs : ∀ o, FailsOnly P (showObject o)) (v : Value) :
    FailsOnly P (displayWith showObject v) := by
  rw [displayWith.eq_def]
  cases v with
  | list items => exact .bind (displayAllWith_failsOnly hlimit hs items) fun _ => .ok _
  | int n => exact displayInt_failsOnly hlimit n
  | object o => exact hs o
  | nil | bool | decimal | character | string | function | foreign => exact .ok _

theorem displayAllWith_failsOnly (hlimit : P (.breakdown .digitLimit))
    {showObject : Object → Except Fault String} (hs : ∀ o, FailsOnly P (showObject o))
    (vs : List Value) :
    FailsOnly P (displayAllWith showObject vs) := by
  rw [displayAllWith.eq_def]
  cases vs with
  | nil => exact .ok _
  | cons v rest =>
      exact .bind (displayWith_failsOnly hlimit hs v) fun _ =>
        .bind (displayAllWith_failsOnly hlimit hs rest) fun _ => .ok _

end

theorem displayMember_failsOnly (hlimit : P (.breakdown .digitLimit))
    {showObject : Object → Except Fault String} (hs : ∀ o, FailsOnly P (showObject o)) (name : String)
    (v : Value) :
    FailsOnly P (displayMember showObject name v) := by
  have hv := displayWith_failsOnly hlimit hs v
  unfold displayMember
  split
  · exact .ok _
  · exact .ok _
  · exact .bind hv fun _ => .ok _

/-- A value is shown, or it is too long or endless. -/
theorem display_failsOnly (hlimit : P (.breakdown .digitLimit)) (hendless : P .endless) (h : Heap)
    (v : Value) :
    FailsOnly P (display h v) := by
  have hobject (room : Nat) (path : List FrameId) (o : Object) :
      FailsOnly P (displayObject h room path o) := by
    induction room generalizing path o with
    | zero => exact .error hendless
    | succ room ih =>
        rw [displayObject]
        split
        · exact .error hendless
        · refine .bind (.mapM (fun member => ?_) _) fun _ => .ok _
          exact displayMember_failsOnly hlimit (ih _) member.1 member.2
  exact displayWith_failsOnly hlimit (hobject _ _) v

mutual

theorem inspect_failsOnly (hlimit : P (.breakdown .digitLimit)) (v : Value) :
    FailsOnly P (inspect v) := by
  cases v with
  | list items =>
      rw [inspect]
      exact .bind (inspectAll_failsOnly hlimit items) fun _ => .ok _
  | int n =>
      rw [inspect, map_eq_pure_bind]
      exact .bind (displayInt_failsOnly hlimit n) fun _ => .ok _
  | nil | bool | decimal | character | string | function | object | foreign => exact .ok _

theorem inspectAll_failsOnly (hlimit : P (.breakdown .digitLimit)) (vs : List Value) :
    FailsOnly P (inspectAll vs) := by
  rw [inspectAll.eq_def]
  cases vs with
  | nil => exact .ok _
  | cons v rest =>
      exact .bind (inspect_failsOnly hlimit v) fun _ =>
        .bind (inspectAll_failsOnly hlimit rest) fun _ => .ok _

end

mutual

theorem equals_failsOnly (hforeign : P (.breakdown .notAValue)) (v w : Value) :
    FailsOnly P (v.equals w) := by
  rw [Value.equals.eq_def]
  split
  case h_1 | h_2 => exact .error hforeign
  case h_9 items others =>
      split
      · exact equalsAll_failsOnly hforeign items others
      · exact .ok _
  all_goals exact .ok _

theorem equalsAll_failsOnly (hforeign : P (.breakdown .notAValue)) (vs ws : List Value) :
    FailsOnly P (Value.equalsAll vs ws) := by
  cases vs with
  | nil => exact .ok _
  | cons v vs =>
      cases ws with
      | nil => exact .ok _
      | cons w ws =>
          rw [Value.equalsAll]
          refine .bind (equals_failsOnly hforeign v w) fun same => ?_
          cases same with
          | true => exact equalsAll_failsOnly hforeign vs ws
          | false => exact .ok _

end

end ProtoScript
