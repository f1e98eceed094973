import ProtoScript.Value.Display

/-!
# The plain recursion behind showing

`display` keeps the objects that it is inside of. Without them it is a plain recursion over values, which
may go on for ever. Cut off at a depth it is a function: what it has shown by then stays, whatever depth is
added, and whoever looks at the objects around shows the same or gives up.
-/

namespace ProtoScript
section Results
variable {α β : Type}

/-- The first result is the second one, unless it was cut short. -/
def IsCut (x y : Except Fault α) : Prop :=
  x = .error .endless ∨ x = y

namespace IsCut

theorem refl (x : Except Fault α) : IsCut x x :=
  .inr rfl

theorem endless (y : Except Fault α) : IsCut (.error .endless) y :=
  .inl rfl

theorem trans {x y z : Except Fault α} (hxy : IsCut x y) (hyz : IsCut y z) : IsCut x z := by
  rcases hxy with rfl | rfl
  · exact .endless z
  · exact hyz

theorem bind {x y : Except Fault α} {k l : α → Except Fault β} (hxy : IsCut x y)
    (hkl : ∀ a, IsCut (k a) (l a)) : IsCut (x >>= k) (y >>= l) := by
  rcases hxy with rfl | rfl
  · exact .endless _
  · cases x with
    | error fault => exact .refl _
    | ok a => exact hkl a

theorem mapM {p q : α → Except Fault β} {items : List α} (h : ∀ a ∈ items, IsCut (p a) (q a)) :
    IsCut (items.mapM p) (items.mapM q) := by
  induction items with
  | nil => exact .refl _
  | cons a rest ih =>
      obtain ⟨ha, hrest⟩ := List.forall_mem_cons.mp h
      rw [List.mapM_cons, List.mapM_cons]
      exact ha.bind fun b => (ih hrest).bind fun _ => .refl _

/-- What is cut short by less is cut short as well. -/
theorem eq_endless {x y : Except Fault α} (h : IsCut x y) (hy : y = .error .endless) :
    x = .error .endless :=
  h.elim id fun hxy => hxy.trans hy

theorem eq_of_ne {x y : Except Fault α} (h : IsCut x y) (hx : x ≠ .error .endless) : y = x :=
  (h.resolve_left hx).symm

end IsCut

/-- What is made of a result changes no fault. -/
theorem bind_ok_eq_error_iff {x : Except Fault α} {f : α → β} {fault : Fault} :
    (x >>= fun a => Except.ok (f a)) = .error fault ↔ x = .error fault := by
  cases x with
  | ok _ => constructor <;> intro hx <;> cases hx
  | error _ => constructor <;> intro hx <;> cases hx <;> rfl

theorem exists_ok_of_bind_ok {x : Except Fault α} {f : α → Except Fault β} {b : β}
    (h : x >>= f = .ok b) : ∃ a, x = .ok a ∧ f a = .ok b := by
  cases x with
  | ok a => exact ⟨a, rfl, h⟩
  | error _ => cases h

/-- A sequence of steps fails at the first step that fails. -/
theorem exists_first_of_mapM_error {p : α → Except Fault β} {items : List α} {fault : Fault}
    (h : items.mapM p = .error fault) :
    ∃ front item back, items = front ++ item :: back ∧ (∃ results, front.mapM p = .ok results) ∧
      p item = .error fault := by
  induction items with
  | nil => cases h
  | cons a rest ih =>
      rw [List.mapM_cons] at h
      cases ha : p a with
      | error _ =>
          rw [ha] at h
          cases h
          exact ⟨[], a, rest, rfl, ⟨[], rfl⟩, ha⟩
      | ok b =>
          rw [ha] at h
          cases hrest : rest.mapM p with
          | ok _ =>
              rw [hrest] at h
              cases h
          | error _ =>
              rw [hrest] at h
              cases h
              obtain ⟨front, item, back, rfl, ⟨results, hfront⟩, hitem⟩ := ih hrest
              refine ⟨a :: front, item, back, rfl, ⟨b :: results, ?_⟩, hitem⟩
              rw [List.mapM_cons, ha, hfront]
              rfl

/-- A sequence of steps succeeds only if every step does. -/
theorem exists_ok_of_mapM_ok {p : α → Except Fault β} {items : List α} {results : List β}
    (h : items.mapM p = .ok results) : ∀ a ∈ items, ∃ b, p a = .ok b := by
  induction items generalizing results with
  | nil => simp
  | cons a rest ih =>
      rw [List.mapM_cons] at h
      obtain ⟨b, ha, h⟩ := exists_ok_of_bind_ok h
      obtain ⟨bs, hrest, -⟩ := exists_ok_of_bind_ok h
      exact List.forall_mem_cons.mpr ⟨⟨b, ha⟩, ih hrest⟩

/-- A sequence of steps whose first failure is known fails with it. -/
theorem mapM_error {p : α → Except Fault β} {front back : List α} {item : α} {fault : Fault}
    (hfront : ∀ a ∈ front, ∃ b, p a = .ok b) (hitem : p item = .error fault) :
    (front ++ item :: back).mapM p = .error fault := by
  induction front with
  | nil =>
      rw [List.nil_append, List.mapM_cons, hitem]
      rfl
  | cons a rest ih =>
      obtain ⟨⟨b, ha⟩, hrest⟩ := List.forall_mem_cons.mp hfront
      rw [List.cons_append, List.mapM_cons, ha, ih hrest]
      rfl

/-- If what stands in front of an endless step is cut short or succeeds, the sequence is endless. -/
theorem mapM_endless {q : α → Except Fault β} {front back : List α} {item : α} {results : List β}
    (hfront : IsCut (front.mapM q) (.ok results)) (hitem : q item = .error .endless) :
    (front ++ item :: back).mapM q = .error .endless := by
  rw [List.mapM_append, List.mapM_cons, hitem]
  rcases hfront with hfront | hfront <;> rw [hfront] <;> rfl

end Results

section Values

/-- What holds of lists if it holds of their items, and of all values that are no lists, holds of all
values. -/
theorem Value.induction {P : Value → Prop}
    (hlist : ∀ items, (∀ item ∈ items, P item) → P (.list items))
    (hleaf : ∀ value, (∀ items, value ≠ .list items) → P value) (value : Value) : P value := by
  cases value with
  | list items =>
      refine hlist items fun item hi => ?_
      exact Value.induction hlist hleaf item
  | nil | bool | int | decimal | character | string | function | object | foreign =>
      exact hleaf _ (by simp)
termination_by sizeOf value
decreasing_by
  subst_vars
  have := List.sizeOf_lt_of_mem hi
  simp
  omega

/-- The members of an object that are shown in full: all but functions and objects. -/
def Value.Inlined : Value → Prop
  | .function _ | .object _ => False
  | _ => True

end Values

section Showing
variable {h : Heap} {p q : Object → Except Fault String}

theorem displayAllWith_eq_mapM (values : List Value) :
    displayAllWith p values = values.mapM (displayWith p) := by
  induction values with
  | nil => rfl
  | cons value rest ih => rw [displayAllWith, ih, List.mapM_cons]

theorem displayWith_list (items : List Value) :
    displayWith p (.list items) =
      items.mapM (displayWith p) >>= fun texts => .ok ("[" ++ ", ".intercalate texts ++ "]") := by
  rw [displayWith, displayAllWith_eq_mapM]
  rfl

/-- A member is shown in full, or without a look at other objects. -/
theorem displayMember_cases (name : String) (value : Value) :
    (value.Inlined ∧ ∀ p, displayMember p name value =
      displayWith p value >>= fun text => .ok ("LET " ++ name ++ " = " ++ text ++ ";")) ∨
    (¬value.Inlined ∧ ∃ text, ∀ p, displayMember p name value = .ok text) := by
  cases value with
  | function f => exact .inr ⟨id, _, fun _ => rfl⟩
  | object o => exact .inr ⟨id, _, fun _ => rfl⟩
  | nil | bool | int | decimal | character | string | list | foreign =>
      exact .inl ⟨trivial, fun _ => rfl⟩

theorem displayMember_of_inlined {value : Value} (hv : value.Inlined) (name : String) :
    displayMember p name value =
      displayWith p value >>= fun text => .ok ("LET " ++ name ++ " = " ++ text ++ ";") := by
  rcases displayMember_cases name value with ⟨-, hshown⟩ | ⟨hn, -⟩
  · exact hshown p
  · exact absurd hv hn

theorem inlined_of_displayMember_error {value : Value} {name : String} {fault : Fault}
    (hv : displayMember p name value = .error fault) :
    value.Inlined ∧ displayWith p value = .error fault := by
  rcases displayMember_cases name value with ⟨hin, hshown⟩ | ⟨-, text, hshown⟩
  · rw [hshown, bind_ok_eq_error_iff] at hv
    exact ⟨hin, hv⟩
  · rw [hshown] at hv
    cases hv

theorem isCut_displayWith (hpq : ∀ o, IsCut (p o) (q o)) (value : Value) :
    IsCut (displayWith p value) (displayWith q value) := by
  induction value using Value.induction with
  | hlist items ih =>
      rw [displayWith_list, displayWith_list]
      exact (IsCut.mapM ih).bind fun _ => .refl _
  | hleaf value hleaf =>
      cases value with
      | list items => exact absurd rfl (hleaf items)
      | object o => exact hpq o
      | nil | bool | int | decimal | character | string | function | foreign => exact .refl _

theorem isCut_displayMember (hpq : ∀ o, IsCut (p o) (q o)) (name : String) (value : Value) :
    IsCut (displayMember p name value) (displayMember q name value) := by
  rcases displayMember_cases name value with ⟨-, hshown⟩ | ⟨-, text, hshown⟩
  · rw [hshown, hshown]
    exact (isCut_displayWith hpq value).bind fun _ => .refl _
  · rw [hshown, hshown]
    exact .refl _

/-- The text of an object, by the plain recursion, if objects are at most `depth` deep in each other. -/
def displayObjectTo (h : Heap) : (depth : Nat) → Object → Except Fault String
  | 0, _ => .error .endless
  | depth + 1, o => do
      let members ← (h.bindings o.frame).entries.mapM fun member =>
        displayMember (displayObjectTo h depth) member.1 member.2
      return " ".intercalate (o.header :: members ++ ["END"])

/-- The text of a value, by the plain recursion, if objects are at most `depth` deep in each other. -/
def displayTo (h : Heap) (depth : Nat) (v : Value) : Except Fault String :=
  displayWith (displayObjectTo h depth) v

/-- More depth changes no text. -/
theorem isCut_displayObjectTo_succ (depth : Nat) (o : Object) :
    IsCut (displayObjectTo h depth o) (displayObjectTo h (depth + 1) o) := by
  induction depth generalizing o with
  | zero => exact .endless _
  | succ depth ih =>
      rw [displayObjectTo, displayObjectTo]
      refine .bind (.mapM ?_) fun _ => .refl _
      intro member _
      exact isCut_displayMember ih member.1 member.2

theorem isCut_displayObjectTo {depth deeper : Nat} (hd : depth ≤ deeper) (o : Object) :
    IsCut (displayObjectTo h depth o) (displayObjectTo h deeper o) := by
  induction hd with
  | refl => exact .refl _
  | step _ ih => exact ih.trans (isCut_displayObjectTo_succ _ o)

/-- Whoever looks at the path shows what the plain recursion shows, or gives up. -/
theorem isCut_displayObject (room : Nat) (path : List FrameId) (o : Object) :
    IsCut (displayObject h room path o) (displayObjectTo h room o) := by
  induction room generalizing path o with
  | zero => exact .endless _
  | succ room ih =>
      rw [displayObject, displayObjectTo]
      split
      · exact .endless _
      · refine .bind (.mapM ?_) fun _ => .refl _
        intro member _
        exact isCut_displayMember (ih _) member.1 member.2

/-- Whether showing an object comes to an end depends on its members alone. -/
theorem displayObjectTo_endless_iff {o o' : Object} (hf : o.frame = o'.frame) (depth : Nat) :
    displayObjectTo h depth o = .error .endless ↔ displayObjectTo h depth o' = .error .endless := by
  cases depth with
  | zero => exact Iff.rfl
  | succ depth =>
      rw [displayObjectTo, displayObjectTo, hf]
      exact bind_ok_eq_error_iff.trans bind_ok_eq_error_iff.symm

/-- Several parts are shown in order. If a look at the path makes one give up, then this part comes to be
shown at every depth, unless an earlier one is cut short already. -/
theorem exists_first_endless {α : Type}
    (showPart : (Object → Except Fault String) → α → Except Fault String)
    (hshow : ∀ {p q}, (∀ o, IsCut (p o) (q o)) → ∀ a, IsCut (showPart p a) (showPart q a))
    {parts : List α} {room : Nat} {path : List FrameId}
    (hp : parts.mapM (showPart (displayObject h room path)) = .error .endless) :
    ∃ part ∈ parts, showPart (displayObject h room path) part = .error .endless ∧
      ∀ depth, showPart (displayObjectTo h depth) part = .error .endless →
        parts.mapM (showPart (displayObjectTo h depth)) = .error .endless := by
  obtain ⟨front, part, back, rfl, ⟨texts, hfront⟩, hpart⟩ := exists_first_of_mapM_error hp
  refine ⟨part, by simp, hpart, ?_⟩
  intro depth hd
  -- With depth enough for both, the parts in front are shown as they were with a look at the path.
  have hroom : IsCut (front.mapM (showPart (displayObject h room path)))
      (front.mapM (showPart (displayObjectTo h (max depth room)))) :=
    .mapM fun a _ => hshow (fun o =>
      (isCut_displayObject room path o).trans (isCut_displayObjectTo (Nat.le_max_right depth room) o)) a
  have hdepth : IsCut (front.mapM (showPart (displayObjectTo h depth)))
      (front.mapM (showPart (displayObjectTo h (max depth room)))) :=
    .mapM fun a _ => hshow (isCut_displayObjectTo (Nat.le_max_left depth room)) a
  rw [hfront] at hroom
  rw [hroom.eq_of_ne (by simp)] at hdepth
  exact mapM_endless hdepth hd

end Showing

end ProtoScript
