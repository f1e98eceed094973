import ProtoScript.Proofs.Eval.Outcome
import ProtoScript.Proofs.Heap.Prototype

/-!
# Writing to members

A member is always written to the object itself, also where it was read from a prototype. What other
objects have under that name changes for those that come to the written object along their prototypes
before they come to a member of that name, and for no others.
-/

namespace ProtoScript

namespace Heap
variable {h : Heap} {o p q : Object} {name : String} {value v : Value} {k : Nat}

theorem lookup_eq_some_iff : h.lookup o name = some value ↔ ∃ k, h.FirstAt o name k value := by
  rw [lookup_eq_searchUnseen, searchUnseen_eq_some_iff]

/-- `o` comes in the sequence of prototypes of `p`, and no object in front of it has a member of that name. -/
def Meets (h : Heap) (name : String) (p o : Object) : Prop :=
  ∃ k, (∃ q, h.prototypeAt p k = some q ∧ q.frame = o.frame) ∧
    ∀ j < k, ∀ q, h.prototypeAt p j = some q → h.own? q.frame name = none

/-- Members depend on the sequence of prototypes and on the bindings of the name alone. -/
theorem FirstAt.transfer {after : Heap} (hsequence : ∀ j, after.prototypeAt p j = h.prototypeAt p j)
    (hown : ∀ f, after.own? f name = h.own? f name) (hfirst : h.FirstAt p name k v) :
    after.FirstAt p name k v := by
  obtain ⟨hfound, hbefore⟩ := hfirst
  simp only [← hsequence, ← hown] at hfound hbefore
  exact ⟨hfound, hbefore⟩

section Bind
variable (ho : o.frame < h.size)
include ho

theorem own?_bind_of_ne {other : String} (hn : other ≠ name) (f : FrameId) :
    (h.bind o.frame name value).own? f other = h.own? f other := by
  rw [own?_bind h o.frame f name other value ho, if_neg fun hx => hn hx.2]

theorem own?_bind_of_frame_ne {f : FrameId} (hf : f ≠ o.frame) :
    (h.bind o.frame name value).own? f name = h.own? f name := by
  rw [own?_bind h o.frame f name name value ho, if_neg fun hx => hf hx.1]

/-- Where the name is not bound after the write, the frame is another one, and did not bind it before. -/
theorem own?_bind_eq_none_iff {f : FrameId} :
    (h.bind o.frame name value).own? f name = none ↔ f ≠ o.frame ∧ h.own? f name = none := by
  by_cases hf : f = o.frame
  · simp [hf, own?_bind_self h o.frame name value ho]
  · simp [hf, own?_bind_of_frame_ne ho hf]

/-- The member that holds the prototype makes the sequence, so another one does not change it. -/
theorem prototypeAt_bind (hn : name ≠ prototypeName) (p : Object) (k : Nat) :
    (h.bind o.frame name value).prototypeAt p k = h.prototypeAt p k := by
  have hprototype : (h.bind o.frame name value).prototype? = h.prototype? := by
    funext q
    rw [prototype?, prototype?, own?_bind_of_ne ho hn.symm]
  induction k with
  | zero => rfl
  | succ k ih => rw [prototypeAt, prototypeAt, ih, hprototype]

/-- Members of other names stay what they are, for all objects. -/
theorem lookup_bind_of_ne (hn : name ≠ prototypeName) {other : String} (hother : other ≠ name) :
    (h.bind o.frame name value).lookup p other = h.lookup p other := by
  ext v
  simp only [lookup_eq_some_iff]
  refine exists_congr fun k => ⟨?_, ?_⟩
  · exact .transfer (fun j => (prototypeAt_bind ho hn p j).symm) fun f => (own?_bind_of_ne ho hother f).symm
  · exact .transfer (prototypeAt_bind ho hn p) (own?_bind_of_ne ho hother)

/-- An object that comes to the written one first has the new member. -/
theorem lookup_bind_of_meets (hn : name ≠ prototypeName) (hm : h.Meets name p o) :
    (h.bind o.frame name value).lookup p name = some value := by
  obtain ⟨k, ⟨q, hq, hframe⟩, hbefore⟩ := hm
  have hwritten : (h.bind o.frame name value).own? q.frame name = some value := by
    rw [hframe, own?_bind_self h o.frame name value ho]
  obtain ⟨j, v, hfirst⟩ := exists_firstAt ((prototypeAt_bind ho hn p k).trans hq) hwritten
  rw [lookup_eq_some_iff.mpr ⟨j, hfirst⟩]
  obtain ⟨⟨r, hr, hv⟩, hnone⟩ := hfirst
  have hle : j ≤ k := by
    refine Nat.le_of_not_lt fun hlt => ?_
    rw [hnone hlt ((prototypeAt_bind ho hn p k).trans hq)] at hwritten
    cases hwritten
  rw [prototypeAt_bind ho hn] at hr
  -- The first member is that of the written object, as the objects in front of it had none.
  have hsame : r.frame = o.frame := by
    rcases Nat.lt_or_eq_of_le hle with hlt | rfl
    · by_contra hne
      rw [own?_bind_of_frame_ne ho hne, hbefore j hlt r hr] at hv
      cases hv
    · rw [hq] at hr
      cases hr
      exact hframe
  rw [hsame, own?_bind_self h o.frame name value ho] at hv
  exact hv.symm

/-- For other objects the member stays what it is. -/
theorem lookup_bind_of_not_meets (hn : name ≠ prototypeName) (hm : ¬h.Meets name p o) :
    (h.bind o.frame name value).lookup p name = h.lookup p name := by
  ext v
  simp only [lookup_eq_some_iff]
  refine exists_congr fun k => ⟨?_, ?_⟩
  · rintro ⟨⟨r, hr, hv⟩, hnone⟩
    simp only [prototypeAt_bind ho hn, own?_bind_eq_none_iff ho] at hr hnone
    have hne : r.frame ≠ o.frame := fun hframe => hm ⟨k, ⟨r, hr, hframe⟩, fun j hj q hq => (hnone hj hq).2⟩
    rw [own?_bind_of_frame_ne ho hne] at hv
    exact ⟨⟨r, hr, hv⟩, fun hj _ hq => (hnone hj hq).2⟩
  · rintro ⟨⟨r, hr, hv⟩, hnone⟩
    have hne {j : Nat} (hj : j ≤ k) {q : Object} (hq : h.prototypeAt p j = some q) :
        q.frame ≠ o.frame := fun hframe =>
      hm ⟨j, ⟨q, hq, hframe⟩, fun i hi q hq => hnone (Nat.lt_of_lt_of_le hi hj) hq⟩
    refine ⟨⟨r, (prototypeAt_bind ho hn p k).trans hr, ?_⟩, fun {j} hj {q} hq => ?_⟩
    · rw [own?_bind_of_frame_ne ho (hne (Nat.le_refl k) hr)]
      exact hv
    · rw [prototypeAt_bind ho hn] at hq
      exact (own?_bind_eq_none_iff ho).mpr ⟨hne (Nat.le_of_lt hj) hq, hnone hj hq⟩

end Bind

end Heap

namespace Eval
open Heap (prototypeName)

/-- A statement that writes to a member succeeds, once its value and the object are there. -/
theorem execStmt_assign_property {cx : Context} {receiver e : Expr} {name : String} {value : Value}
    {o : Object} {s t u : State} (hvalue : evalExpr cx e s = .ok value t)
    (hobject : evalExpr cx receiver t = .ok (.object o) u) :
    execStmt cx (.assign (.property receiver name) e) s =
      .ok (.normal value) { u with heap := u.heap.bind o.frame name value } := by
  have hstep : (do
      let result ← evalExpr cx e
      let o ← expectObject (← evalExpr cx receiver)
      setMember o name result
      return Completion.normal result : Eval Completion) s =
        .ok (.normal value) { u with heap := u.heap.bind o.frame name value } := by
    rw [bind_apply, hvalue]
    change (evalExpr cx receiver >>= _) t = _
    rw [bind_apply, hobject]
    rfl
  rw [execStmt, blame]
  simp only [hstep]

/-- A write to a member of an object succeeds and changes that object's own frame alone. Every object has
the same members as before, with one exception: under the written name those objects have the new value
that come to the written object along their prototypes before they come to a member of that name. This
holds on every heap, also where prototypes form a circle, unless the prototype itself is written. -/
theorem property_writes_shadow (s : State) (o : Object) (ho : o.frame < s.heap.size) (name : String)
    (hn : name ≠ prototypeName) (value : Value) :
    ∃ t : State, setMember o name value s = .ok () t ∧
      (∀ cx receiver e s₀ s₁, evalExpr cx e s₀ = .ok value s₁ →
        evalExpr cx receiver s₁ = .ok (.object o) s →
        execStmt cx (.assign (.property receiver name) e) s₀ = .ok (.normal value) t) ∧
      t = { s with heap := t.heap } ∧
      (∀ f, f ≠ o.frame → t.heap.frames[f]? = s.heap.frames[f]?) ∧
      (∀ m, t.heap.own? o.frame m = if m = name then some value else s.heap.own? o.frame m) ∧
      ∀ p : Object, (∀ m, m ≠ name → t.heap.lookup p m = s.heap.lookup p m) ∧
        (s.heap.Meets name p o → t.heap.lookup p name = some value) ∧
        (¬s.heap.Meets name p o → t.heap.lookup p name = s.heap.lookup p name) := by
  refine ⟨{ s with heap := s.heap.bind o.frame name value }, rfl, ?_, rfl, ?_, ?_, fun p => ⟨?_, ?_, ?_⟩⟩
  · intro cx receiver e s₀ s₁
    exact execStmt_assign_property
  · intro f hf
    rw [Heap.frames_bind, if_neg hf.symm]
  · intro m
    simp [Heap.own?_bind, ho]
  · intro m hm
    exact Heap.lookup_bind_of_ne ho hn hm
  · exact Heap.lookup_bind_of_meets ho hn
  · exact Heap.lookup_bind_of_not_meets ho hn

/-- The second and the third object are each other's prototypes, and the second has the member. A write to
the third hides it there, while the first goes on to find it in the second. -/
theorem property_writes_shadow_circle :
    let s : State := { heap := Heap.circle none, scope := 3 }
    let first : Object := ⟨none, 0⟩
    let third : Object := ⟨none, 2⟩
    third.frame < s.heap.size ∧ "y" ≠ prototypeName ∧ ∃ t, setMember third "y" (.int 9) s = .ok () t ∧
      t.heap.lookup third "y" = some (.int 9) ∧ t.heap.lookup first "y" = some (.int 7) := by
  intro s first third
  have hthird : third.frame < s.heap.size := by decide
  have hname : "y" ≠ prototypeName := by decide
  obtain ⟨t, hset, -, -, -, -, hlookup⟩ := property_writes_shadow s third hthird "y" hname (.int 9)
  have hmeets : s.heap.Meets "y" third third := ⟨0, ⟨third, rfl, rfl⟩, by simp⟩
  have hfirst : ¬s.heap.Meets "y" first third := by
    rintro ⟨k, ⟨q, hq, hframe⟩, hbefore⟩
    rcases k with _ | _ | k
    · cases hq
      cases hframe
    · cases hq
      cases hframe
    · cases hbefore 1 (by omega) ⟨none, 1⟩ rfl
  exact ⟨hthird, hname, t, hset, (hlookup third).2.1 hmeets, (hlookup first).2.2 hfirst⟩

end Eval

end ProtoScript
