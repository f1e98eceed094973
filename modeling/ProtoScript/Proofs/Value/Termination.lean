import Mathlib.Data.List.Nodup
import Mathlib.Data.List.Perm.Subperm
import Mathlib.Logic.Relation
import ProtoScript.Proofs.Heap.Reach
import ProtoScript.Proofs.Numeral
import ProtoScript.Proofs.Value.Faults
import ProtoScript.Proofs.Value.Recursion

/-!
# When showing a value ends

Showing a list goes on to its items, and showing an object goes on to those of its members that are
neither functions nor objects. It ends unless it comes to an object that it can reach again from there;
but an integer that is too long to be written stops it before it gets further.

`display` gives up at the first object that comes again. It gives up exactly where the plain recursion
would never end, and otherwise shows what the plain recursion shows.
-/

namespace ProtoScript
open Relation

namespace Heap

/-- The steps of showing: from a list to its items, and from an object to those of its members that are
neither functions nor objects. -/
inductive StepsTo (h : Heap) : Value → Value → Prop
  | item {items : List Value} {item : Value} (hi : item ∈ items) : StepsTo h (.list items) item
  | member {o : Object} {member : String × Value} (hm : member ∈ (h.bindings o.frame).entries)
      (hin : member.2.Inlined) : StepsTo h (.object o) member.2

/-- An object can be reached again from itself by one step or more. -/
def ContainsItself (h : Heap) (o : Object) : Prop :=
  TransGen h.StepsTo (.object o) (.object o)

/-- Steps lead from the value to an object that contains itself. -/
def HoldsCircle (h : Heap) (v : Value) : Prop :=
  ∃ o, ReflTransGen h.StepsTo v (.object o) ∧ h.ContainsItself o

/-- The plain recursion ends on the value: with a text, or at an integer that is too long. -/
def ShowingEnds (h : Heap) (v : Value) : Prop :=
  ∃ depth, displayTo h depth v ≠ .error .endless

section Circles
variable {h : Heap} {o o' o'' : Object} {v w : Value}

theorem stepsTo_of_frame_eq (hf : o.frame = o'.frame) (hs : h.StepsTo (.object o) w) :
    h.StepsTo (.object o') w := by
  cases hs with
  | member hm hin => exact .member (hf ▸ hm) hin

/-- Showing the first object comes to the second one: if the second is not shown to some depth, then
neither is the first. -/
structure LeadsTo (h : Heap) (o o' : Object) : Prop where
  steps : TransGen h.StepsTo (.object o) (.object o')
  endless {depth : Nat} (hd : displayObjectTo h depth o' = .error .endless) :
    displayObjectTo h (depth + 1) o = .error .endless

theorem LeadsTo.trans (ho : h.LeadsTo o o') (ho' : h.LeadsTo o' o'') : h.LeadsTo o o'' where
  steps := ho.steps.trans ho'.steps
  endless hd := ho.endless ((isCut_displayObjectTo_succ _ _).eq_endless (ho'.endless hd))

/-- An object that comes to itself is never shown. -/
theorem LeadsTo.never (ho : h.LeadsTo o o') (hf : o.frame = o'.frame) (depth : Nat) :
    displayObjectTo h depth o' = .error .endless := by
  induction depth with
  | zero => rfl
  | succ depth ih => exact (displayObjectTo_endless_iff hf (depth + 1)).mp (ho.endless ih)

theorem LeadsTo.containsItself (ho : h.LeadsTo o o') (hf : o.frame = o'.frame) :
    h.ContainsItself o' := by
  obtain ⟨w, hfirst, hrest⟩ := TransGen.head'_iff.mp ho.steps
  exact .head' (stepsTo_of_frame_eq hf hfirst) hrest

/-- Showing the value comes to the object. -/
structure ComesTo (h : Heap) (v : Value) (o : Object) : Prop where
  steps : ReflTransGen h.StepsTo v (.object o)
  endless {depth : Nat} (hd : displayObjectTo h depth o = .error .endless) :
    displayTo h depth v = .error .endless

/-- Showing a value gives up only at an object that it comes to. -/
theorem exists_comesTo {room : Nat} {path : List FrameId}
    (hv : displayWith (displayObject h room path) v = .error .endless) :
    ∃ o, h.ComesTo v o ∧ displayObject h room path o = .error .endless := by
  induction v using Value.induction with
  | hlist items ih =>
      rw [displayWith_list, bind_ok_eq_error_iff] at hv
      obtain ⟨item, hi, hitem, hall⟩ := exists_first_endless displayWith isCut_displayWith hv
      obtain ⟨o, ho, hgives⟩ := ih item hi hitem
      refine ⟨o, ⟨.head (.item hi) ho.steps, ?_⟩, hgives⟩
      intro depth hd
      rw [displayTo, displayWith_list, bind_ok_eq_error_iff]
      exact hall depth (ho.endless hd)
  | hleaf v hleaf =>
      cases v with
      | list items => exact absurd rfl (hleaf items)
      | object o => exact ⟨o, ⟨.refl, id⟩, hv⟩
      | int n =>
          rw [displayWith, displayInt] at hv
          split at hv <;> cases hv
      | nil | bool | decimal | character | string | function | foreign => cases hv

/-- If showing gives up on an object that it is not inside of, the object leads to another one on which it
gives up. -/
theorem exists_leadsTo {room : Nat} {path : List FrameId} (hn : o.frame ∉ path)
    (ho : displayObject h (room + 1) path o = .error .endless) :
    o.frame < h.size ∧
      ∃ o', h.LeadsTo o o' ∧ displayObject h room (o.frame :: path) o' = .error .endless := by
  rw [displayObject, if_neg (by simpa using hn)] at ho
  have hmembers := bind_ok_eq_error_iff.mp ho
  obtain ⟨member, hm, hmember, hall⟩ := exists_first_endless
    (fun p (member : String × Value) => displayMember p member.1 member.2)
    (fun hpq member => isCut_displayMember hpq member.1 member.2) hmembers
  obtain ⟨hin, hvalue⟩ := inlined_of_displayMember_error hmember
  obtain ⟨o', ho', hgives⟩ := exists_comesTo hvalue
  refine ⟨lt_size_of_mem_bindings hm, o', ⟨.head' (.member hm hin) ho'.steps, ?_⟩, hgives⟩
  intro depth hd
  have hshown : displayMember (displayObjectTo h depth) member.1 member.2 = .error .endless := by
    rw [displayMember_of_inlined hin, bind_ok_eq_error_iff]
    exact ho'.endless hd
  rw [displayObjectTo]
  exact bind_ok_eq_error_iff.mpr (hall depth hshown)

/-- An object that contains itself and is never shown. -/
structure Circles (h : Heap) (o : Object) : Prop where
  containsItself : h.ContainsItself o
  never (depth : Nat) : displayObjectTo h depth o = .error .endless

/-- Showing gives up only on the way to a circle. Each object on the path leads to the present one, and
there are not more of them than frames, so that one of them comes again before there is no room left. -/
theorem exists_circles {room : Nat} {path : List FrameId} (hnodup : path.Nodup)
    (hbound : ∀ f ∈ path, f < h.size) (hroom : h.size < path.length + room)
    (hpath : ∀ f ∈ path, ∃ p : Object, p.frame = f ∧ h.LeadsTo p o)
    (ho : displayObject h room path o = .error .endless) :
    ∃ o', (o' = o ∨ h.LeadsTo o o') ∧ h.Circles o' := by
  induction room generalizing path o with
  | zero =>
      have hsub : path ⊆ List.range h.size := fun f hf => List.mem_range.mpr (hbound f hf)
      have hle := (hnodup.subperm hsub).length_le
      rw [List.length_range] at hle
      omega
  | succ room ih =>
      by_cases hmem : o.frame ∈ path
      · obtain ⟨p, hframe, hp⟩ := hpath _ hmem
        exact ⟨o, .inl rfl, hp.containsItself hframe, hp.never hframe⟩
      · obtain ⟨hlt, o', ho', hgives⟩ := exists_leadsTo hmem ho
        have hbound' : ∀ f ∈ o.frame :: path, f < h.size := List.forall_mem_cons.mpr ⟨hlt, hbound⟩
        have hpath' : ∀ f ∈ o.frame :: path, ∃ p : Object, p.frame = f ∧ h.LeadsTo p o' := by
          refine List.forall_mem_cons.mpr ⟨⟨o, rfl, ho'⟩, fun f hf => ?_⟩
          obtain ⟨p, hframe, hp⟩ := hpath f hf
          exact ⟨p, hframe, hp.trans ho'⟩
        have hroom' : h.size < (o.frame :: path).length + room := by
          rw [List.length_cons]
          omega
        obtain ⟨c, hc, hcircles⟩ := ih (List.nodup_cons.mpr ⟨hmem, hnodup⟩) hbound' hroom' hpath' hgives
        refine ⟨c, .inr ?_, hcircles⟩
        rcases hc with rfl | hc
        · exact ho'
        · exact ho'.trans hc

/-- If `display` gives up, the value holds a circle, and the plain recursion never ends. -/
theorem never_of_display_endless (hv : display h v = .error .endless) :
    h.HoldsCircle v ∧ ∀ depth, displayTo h depth v = .error .endless := by
  obtain ⟨o, ho, hgives⟩ := exists_comesTo hv
  obtain ⟨c, hc, hcircles⟩ := exists_circles .nil (by simp) (by simp) (by simp) hgives
  rcases hc with rfl | hc
  · exact ⟨⟨c, ho.steps, hcircles.containsItself⟩, fun depth => ho.endless (hcircles.never depth)⟩
  · refine ⟨⟨c, ho.steps.trans hc.steps.to_reflTransGen, hcircles.containsItself⟩, fun depth => ?_⟩
    exact ho.endless ((isCut_displayObjectTo_succ _ _).eq_endless (hc.endless (hcircles.never depth)))

end Circles

section Shown
variable {h : Heap} {o : Object} {v w : Value} {depth : Nat}

/-- The plain recursion gives a text of the value. -/
def Shown (h : Heap) (depth : Nat) (v : Value) : Prop :=
  ∃ text, displayTo h depth v = .ok text

theorem isCut_displayTo {deeper : Nat} (hd : depth ≤ deeper) (v : Value) :
    IsCut (displayTo h depth v) (displayTo h deeper v) :=
  isCut_displayWith (isCut_displayObjectTo hd) v

theorem Shown.deeper {deeper : Nat} (hv : h.Shown depth v) (hd : depth ≤ deeper) :
    h.Shown deeper v := by
  obtain ⟨text, htext⟩ := hv
  have hcut := isCut_displayTo hd v (h := h)
  rw [htext] at hcut
  exact ⟨text, hcut.eq_of_ne (by simp)⟩

/-- The members of an object are shown with less depth than the object. -/
theorem Shown.member (ho : h.Shown depth (.object o)) (hs : h.StepsTo (.object o) w) :
    ∃ less, depth = less + 1 ∧ h.Shown less w := by
  obtain ⟨text, htext⟩ := ho
  cases depth with
  | zero => cases htext
  | succ less =>
      cases hs with
      | @member _ member hm hin =>
          change displayObjectTo h (less + 1) o = .ok text at htext
          rw [displayObjectTo] at htext
          obtain ⟨texts, htexts, -⟩ := exists_ok_of_bind_ok htext
          obtain ⟨shown, hshown⟩ := exists_ok_of_mapM_ok htexts member hm
          rw [displayMember_of_inlined hin] at hshown
          obtain ⟨inner, hinner, -⟩ := exists_ok_of_bind_ok hshown
          exact ⟨less, rfl, inner, hinner⟩

theorem Shown.step (hv : h.Shown depth v) (hs : h.StepsTo v w) : h.Shown depth w := by
  cases hs with
  | @item items item hi =>
      obtain ⟨text, htext⟩ := hv
      rw [displayTo, displayWith_list] at htext
      obtain ⟨texts, htexts, -⟩ := exists_ok_of_bind_ok htext
      exact exists_ok_of_mapM_ok htexts w hi
  | member hm hin =>
      obtain ⟨less, rfl, hless⟩ := hv.member (.member hm hin)
      exact hless.deeper (Nat.le_succ less)

theorem Shown.steps (hv : h.Shown depth v) (hs : ReflTransGen h.StepsTo v w) : h.Shown depth w := by
  induction hs with
  | refl => exact hv
  | tail _ hstep ih => exact ih.step hstep

/-- Each time an object comes again, less depth is left for it; so no depth is enough. -/
theorem ContainsItself.not_shown (ho : h.ContainsItself o) : ¬h.Shown depth (.object o) := by
  induction depth with
  | zero =>
      rintro ⟨text, htext⟩
      cases htext
  | succ depth ih =>
      intro hshown
      obtain ⟨w, hfirst, hrest⟩ := TransGen.head'_iff.mp ho
      obtain ⟨less, heq, hless⟩ := hshown.member hfirst
      cases heq
      exact ih (hless.steps hrest)

theorem HoldsCircle.not_shown (hv : h.HoldsCircle v) : ¬h.Shown depth v := by
  obtain ⟨o, hsteps, ho⟩ := hv
  intro hshown
  exact ho.not_shown (hshown.steps hsteps)

/-- Steps lead from the value to an integer that is too long to be written. -/
def HoldsLong (h : Heap) (v : Value) : Prop :=
  ∃ n, ReflTransGen h.StepsTo v (.int n) ∧ Numeral.maxDigits < Numeral.digitCount n.natAbs

theorem digitCount_le_of_shown {n : Int} (hn : h.Shown depth (.int n)) :
    Numeral.digitCount n.natAbs ≤ Numeral.maxDigits := by
  obtain ⟨text, htext⟩ := hn
  rw [displayTo, displayWith, displayInt] at htext
  split at htext
  · next hw => exact (Numeral.writable_iff n).mp hw
  · cases htext

/-- Steps lead neither to an object that contains itself nor to an integer that is too long. -/
def Showable (h : Heap) (v : Value) : Prop :=
  ¬h.HoldsCircle v ∧ ¬h.HoldsLong v

theorem Shown.showable (hv : h.Shown depth v) : h.Showable v := by
  refine ⟨fun hcircle => hcircle.not_shown hv, ?_⟩
  rintro ⟨n, hn, hlong⟩
  exact absurd hlong (Nat.not_lt.mpr (digitCount_le_of_shown (hv.steps hn)))

/-- In the order in which values are shown an integer that is too long comes first: what is shown before it
has a text. The objects around the integer may contain themselves, as long as showing comes back to none of
them before the integer. -/
inductive LongFirst (h : Heap) : Value → Prop
  | integer {n : Int} (hn : Numeral.maxDigits < Numeral.digitCount n.natAbs) : LongFirst h (.int n)
  | item {front back : List Value} {item : Value} (hfront : ∀ earlier ∈ front, h.Showable earlier)
      (hi : LongFirst h item) : LongFirst h (.list (front ++ item :: back))
  | member {o : Object} {front back : List (String × Value)} {member : String × Value}
      (hm : (h.bindings o.frame).entries = front ++ member :: back)
      (hfront : ∀ earlier ∈ front, earlier.2.Inlined → h.Showable earlier.2)
      (hin : member.2.Inlined) (hl : LongFirst h member.2) : LongFirst h (.object o)

theorem LongFirst.holdsLong (hv : h.LongFirst v) : h.HoldsLong v := by
  induction hv with
  | @integer n hn => exact ⟨n, .refl, hn⟩
  | item _ _ ih =>
      obtain ⟨n, hn, hlong⟩ := ih
      exact ⟨n, .head (.item (by simp)) hn, hlong⟩
  | member hm _ hin _ ih =>
      obtain ⟨n, hn, hlong⟩ := ih
      exact ⟨n, .head (.member (by simp [hm]) hin) hn, hlong⟩

theorem longFirst_of_displayTo
    (hobject : ∀ o, displayObjectTo h depth o = .error (.breakdown .digitLimit) → h.LongFirst (.object o))
    (hv : displayTo h depth v = .error (.breakdown .digitLimit)) : h.LongFirst v := by
  induction v using Value.induction with
  | hlist items ih =>
      rw [displayTo, displayWith_list, bind_ok_eq_error_iff] at hv
      obtain ⟨front, item, back, rfl, ⟨texts, hfront⟩, hitem⟩ := exists_first_of_mapM_error hv
      refine .item (fun earlier he => ?_) (ih item (by simp) hitem)
      exact Shown.showable (exists_ok_of_mapM_ok hfront earlier he)
  | hleaf v hleaf =>
      cases v with
      | list items => exact absurd rfl (hleaf items)
      | object o => exact hobject o hv
      | int n =>
          refine .integer (Nat.lt_of_not_le fun hle => ?_)
          rw [displayTo, displayWith, displayInt, if_pos ((Numeral.writable_iff n).mpr hle)] at hv
          cases hv
      | nil | bool | decimal | character | string | function | foreign => cases hv

/-- The recursion is stopped only by an integer that comes first. -/
theorem longFirst_of_displayObjectTo
    (ho : displayObjectTo h depth o = .error (.breakdown .digitLimit)) : h.LongFirst (.object o) := by
  induction depth generalizing o with
  | zero => cases ho
  | succ depth ih =>
      rw [displayObjectTo] at ho
      obtain ⟨front, member, back, hmembers, ⟨texts, hfront⟩, hmember⟩ :=
        exists_first_of_mapM_error (bind_ok_eq_error_iff.mp ho)
      obtain ⟨hin, hvalue⟩ := inlined_of_displayMember_error hmember
      refine .member hmembers (fun earlier he hine => ?_) hin (longFirst_of_displayTo (fun _ => ih) hvalue)
      obtain ⟨text, htext⟩ := exists_ok_of_mapM_ok hfront earlier he
      rw [displayMember_of_inlined hine] at htext
      obtain ⟨inner, hinner, -⟩ := exists_ok_of_bind_ok htext
      exact Shown.showable ⟨inner, hinner⟩

end Shown

section Display
variable {h : Heap} {v : Value}

/-- The depth that a heap has room for is enough. -/
theorem displayTo_size (hv : display h v ≠ .error .endless) :
    displayTo h (h.size + 1) v = display h v :=
  (isCut_displayWith (isCut_displayObject _ _) v).eq_of_ne hv

/-- `display` gives what the plain recursion comes to. -/
theorem display_eq_iff {result : Except Fault String} (hr : result ≠ .error .endless) :
    display h v = result ↔ ∃ depth, displayTo h depth v = result := by
  constructor
  · rintro rfl
    exact ⟨h.size + 1, displayTo_size hr⟩
  · rintro ⟨depth, rfl⟩
    have hends : display h v ≠ .error .endless := fun hv => hr ((never_of_display_endless hv).2 depth)
    have hdepth := isCut_displayTo (Nat.le_max_left depth (h.size + 1)) v (h := h)
    have hroom := isCut_displayTo (Nat.le_max_right depth (h.size + 1)) v (h := h)
    rw [displayTo_size hends] at hroom
    exact (hroom.eq_of_ne hends).symm.trans (hdepth.eq_of_ne hr)

theorem showingEnds_iff : h.ShowingEnds v ↔ display h v ≠ .error .endless := by
  constructor
  · rintro ⟨depth, hd⟩ hv
    exact hd ((never_of_display_endless hv).2 depth)
  · intro hv
    exact ⟨h.size + 1, displayTo_size hv ▸ hv⟩

theorem display_cases (h : Heap) (v : Value) :
    (∃ text, display h v = .ok text) ∨ display h v = .error .endless ∨
      display h v = .error (.breakdown .digitLimit) := by
  have hfails : FailsOnly (fun fault => fault = .endless ∨ fault = .breakdown .digitLimit) (display h v) :=
    display_failsOnly (.inr rfl) (.inl rfl) h v
  cases hv : display h v with
  | ok text => exact .inl ⟨text, rfl⟩
  | error fault => exact .inr ((hfails fault hv).imp (congrArg _) (congrArg _))

theorem longFirst_of_display (hv : display h v = .error (.breakdown .digitLimit)) : h.LongFirst v := by
  obtain ⟨depth, hd⟩ := (display_eq_iff (by simp)).mp hv
  exact longFirst_of_displayTo (fun _ => longFirst_of_displayObjectTo) hd

/-- A value has a text if it holds nothing that keeps it from being shown. -/
theorem exists_display_iff : (∃ text, display h v = .ok text) ↔ h.Showable v := by
  constructor
  · rintro ⟨text, htext⟩
    obtain ⟨depth, hd⟩ := (display_eq_iff (by simp)).mp htext
    exact Shown.showable ⟨text, hd⟩
  · rintro ⟨hcircle, hlong⟩
    rcases display_cases h v with htext | hendless | hlimit
    · exact htext
    · exact absurd (never_of_display_endless hendless).1 hcircle
    · exact absurd (longFirst_of_display hlimit).holdsLong hlong

theorem Showable.shown (hv : h.Showable v) : h.Shown (h.size + 1) v := by
  obtain ⟨text, htext⟩ := exists_display_iff.mpr hv
  exact ⟨text, (displayTo_size (by simp [htext])).trans htext⟩

theorem displayTo_of_display_limit (hv : display h v = .error (.breakdown .digitLimit)) :
    displayTo h (h.size + 1) v = .error (.breakdown .digitLimit) :=
  (displayTo_size (by simp [hv])).trans hv

/-- An integer that comes first stops the recursion. -/
theorem LongFirst.display (hv : h.LongFirst v) :
    ProtoScript.display h v = .error (.breakdown .digitLimit) := by
  induction hv with
  | @integer n hn =>
      have hlong : Numeral.writable n ≠ true := by
        rw [ne_eq, Numeral.writable_iff]
        exact Nat.not_le.mpr hn
      rw [ProtoScript.display, displayWith, displayInt, if_neg hlong]
  | item hfront _ ih =>
      refine (display_eq_iff (by simp)).mpr ⟨h.size + 1, ?_⟩
      rw [displayTo, displayWith_list, bind_ok_eq_error_iff]
      exact mapM_error (fun earlier he => (hfront earlier he).shown) (displayTo_of_display_limit ih)
  | @member o front back member hm hfront hin _ ih =>
      refine (display_eq_iff (by simp)).mpr ⟨h.size + 1 + 1, ?_⟩
      change displayObjectTo h (h.size + 1 + 1) o = _
      rw [displayObjectTo, hm]
      refine bind_ok_eq_error_iff.mpr (mapM_error (fun earlier he => ?_) ?_)
      · rcases displayMember_cases earlier.1 earlier.2 with ⟨hine, hshown⟩ | ⟨-, text, hshown⟩
        · obtain ⟨text, htext⟩ := (hfront earlier he hine).shown
          rw [hshown, show displayWith _ _ = _ from htext]
          exact ⟨_, rfl⟩
        · exact ⟨text, hshown _⟩
      · rw [displayMember_of_inlined hin, bind_ok_eq_error_iff]
        exact displayTo_of_display_limit ih

end Display

end Heap

open Heap

/-- Showing a value ends exactly if steps lead to no object that contains itself, or if an integer of more
than 4300 digits stops it before it comes back to such an object. So it ends wherever circles of objects go
through members that are objects themselves. `display` gives what the plain recursion comes to: a text
if there is neither such an object nor such an integer, and a failure if the integer comes first. -/
theorem display_ends_unless_self_contained (h : Heap) (v : Value) :
    (h.ShowingEnds v ↔ ¬h.HoldsCircle v ∨ h.LongFirst v) ∧
    ((∀ o, ¬h.ContainsItself o) → h.ShowingEnds v) ∧
    ((∃ text, display h v = .ok text) ↔ ¬h.HoldsCircle v ∧ ¬h.HoldsLong v) ∧
    (display h v = .error (.breakdown .digitLimit) ↔ h.LongFirst v) ∧
    (∀ result, result ≠ .error .endless →
      (display h v = result ↔ ∃ depth, displayTo h depth v = result)) := by
  have hends : ¬h.HoldsCircle v → h.ShowingEnds v := by
    intro hno
    exact showingEnds_iff.mpr fun hv => hno (never_of_display_endless hv).1
  refine ⟨⟨?_, ?_⟩, ?_, exists_display_iff, ⟨longFirst_of_display, LongFirst.display⟩,
    fun result hr => display_eq_iff hr⟩
  · intro hv
    rcases display_cases h v with htext | hendless | hlimit
    · exact .inl (exists_display_iff.mp htext).1
    · exact absurd hendless (showingEnds_iff.mp hv)
    · exact .inr (longFirst_of_display hlimit)
  · rintro (hno | hlong)
    · exact hends hno
    · exact showingEnds_iff.mpr (by simp [hlong.display])
  · intro hno
    refine hends ?_
    rintro ⟨o, -, ho⟩
    exact hno o ho

/-- An object that is its own member does not contain itself: no step leads from it to itself. -/
theorem display_ends_unless_self_contained_link :
    let o : Object := { name := none, frame := 0 }
    let h : Heap := { frames := #[{ bindings := ⟨[("self", .object o)]⟩ }] }
    (∀ o, ¬h.ContainsItself o) ∧ h.ShowingEnds (.object o) ∧
      ∃ depth, displayTo h depth (.object o) = display h (.object o) := by
  intro o h
  have hnone (o' : Object) : ¬h.ContainsItself o' := by
    intro ho
    obtain ⟨w, hfirst, -⟩ := TransGen.head'_iff.mp ho
    cases hfirst with
    | @member _ member hm hin =>
        obtain ⟨name, frame⟩ := o'
        cases frame with
        | zero =>
            obtain rfl : member = ("self", .object o) := List.mem_singleton.mp hm
            exact hin
        | succ frame => cases hm
  obtain ⟨-, hends, -, -, hresult⟩ := display_ends_unless_self_contained h (.object o)
  exact ⟨hnone, hends hnone, (hresult _ (showingEnds_iff.mp (hends hnone))).mp rfl⟩

/-- An object that contains itself through a list is shown up to the integer in front of it, which is too
long: showing ends there. -/
theorem long_integer_stops_showing :
    let o : Object := { name := none, frame := 0 }
    let items : Value := .list [.int (10 ^ 4300 : Nat), .object o]
    let h : Heap := { frames := #[{ bindings := ⟨[("items", items)]⟩ }] }
    h.HoldsCircle (.object o) ∧ h.ShowingEnds (.object o) ∧
      display h (.object o) = .error (.breakdown .digitLimit) := by
  intro o items h
  have hin : items.Inlined := trivial
  have hcircle : h.ContainsItself o := by
    have hmember : ("items", items) ∈ (h.bindings o.frame).entries := List.mem_singleton.mpr rfl
    exact .tail (.single (.member hmember hin)) (.item (List.mem_cons_of_mem _ List.mem_cons_self))
  have hlong : Numeral.maxDigits < Numeral.digitCount ((10 ^ 4300 : Nat) : Int).natAbs := by
    rw [Int.natAbs_natCast, ← Nat.not_le, Numeral.digitCount_le_iff (by decide)]
    simp only [Numeral.maxDigits, Nat.lt_irrefl, not_false_eq_true]
  have hitems : h.LongFirst items := .item (List.forall_mem_nil _) (.integer hlong)
  have hfirst : h.LongFirst (.object o) :=
    @LongFirst.member h o [] [] ("items", items) rfl (List.forall_mem_nil _) hin hitems
  exact ⟨⟨o, .refl, hcircle⟩, showingEnds_iff.mpr (by simp [hfirst.display]), hfirst.display⟩

end ProtoScript
