import Mathlib.Data.Finset.Card
import Mathlib.Data.Finset.Range
import ProtoScript.Proofs.Heap.Reach

/-!
# Members along prototypes

The prototypes of an object form a sequence, which may go round in a circle from any of its objects on.
A look-up gives the member of the first object in the sequence that has one. A search that remembers
the objects it has seen and stops at the first one that comes again gives the same: it ends on every heap,
as it sees a new frame with each step, and beyond the object that comes again the sequence only repeats
what was seen.
-/

namespace ProtoScript.Heap
variable {h : Heap} {o p : Object} {name : String} {value : Value}

/-- The sequence of an object, its prototype, the prototype of that, and so on, as far as it goes. -/
def prototypeAt (h : Heap) (o : Object) : Nat → Option Object
  | 0 => some o
  | k + 1 => (h.prototypeAt o k).bind h.prototype?

theorem prototypeAt_succ (h : Heap) (o : Object) (k : Nat) :
    h.prototypeAt o (k + 1) = (h.prototype? o).bind (h.prototypeAt · k) := by
  induction k with
  | zero => cases hp : h.prototype? o <;> simp [prototypeAt, hp]
  | succ k ih =>
      rw [prototypeAt, ih, Option.bind_assoc]
      rfl

/-- Only objects whose frame is there have members. -/
theorem lt_size_of_prototype? (hp : h.prototype? o = some p) : o.frame < h.size := by
  unfold prototype? at hp
  split at hp
  · next hv => exact lt_size_of_own? hv
  · cases hp

/-- The `k`-th object of the sequence is the first with a member of that name, and `value` is its member. -/
structure FirstAt (h : Heap) (o : Object) (name : String) (k : Nat) (value : Value) : Prop where
  found : ∃ p, h.prototypeAt o k = some p ∧ h.own? p.frame name = some value
  before {j : Nat} (hj : j < k) {p : Object} (hp : h.prototypeAt o j = some p) :
    h.own? p.frame name = none

theorem firstAt_zero_iff : h.FirstAt o name 0 value ↔ h.own? o.frame name = some value := by
  constructor
  · rintro ⟨⟨p, ⟨⟩, hv⟩, -⟩
    exact hv
  · intro hv
    exact ⟨⟨o, rfl, hv⟩, nofun⟩

theorem firstAt_succ_iff {k : Nat} :
    h.FirstAt o name (k + 1) value ↔
      h.own? o.frame name = none ∧ ∃ p, h.prototype? o = some p ∧ h.FirstAt p name k value := by
  constructor
  · rintro ⟨⟨q, hq, hv⟩, hbefore⟩
    rw [prototypeAt_succ] at hq
    obtain ⟨p, hp, hq⟩ := Option.bind_eq_some_iff.mp hq
    refine ⟨hbefore (Nat.succ_pos k) rfl, p, hp, ⟨q, hq, hv⟩, ?_⟩
    intro j hj q hq
    refine hbefore (Nat.succ_lt_succ hj) ?_
    rw [prototypeAt_succ, hp]
    exact hq
  · rintro ⟨hnone, p, hp, ⟨q, hq, hv⟩, hbefore⟩
    refine ⟨⟨q, ?_, hv⟩, ?_⟩
    · rw [prototypeAt_succ, hp]
      exact hq
    · intro j hj q hq
      cases j with
      | zero =>
          cases hq
          exact hnone
      | succ j =>
          rw [prototypeAt_succ, hp] at hq
          exact hbefore (Nat.lt_of_succ_lt_succ hj) hq

/-- The first object has the member itself, or the rest of the sequence has it. -/
theorem FirstAt.eq_of_own? {k : Nat} {v : Value} (hfirst : h.FirstAt o name k value)
    (hown : h.own? o.frame name = some v) : v = value := by
  cases k with
  | zero =>
      rw [firstAt_zero_iff.mp hfirst] at hown
      cases hown
      rfl
  | succ k =>
      rw [(firstAt_succ_iff.mp hfirst).1] at hown
      cases hown

theorem FirstAt.next {k : Nat} (hfirst : h.FirstAt o name k value) (hown : h.own? o.frame name = none) :
    ∃ j p, h.prototype? o = some p ∧ h.FirstAt p name j value := by
  cases k with
  | zero =>
      rw [firstAt_zero_iff.mp hfirst] at hown
      cases hown
  | succ k => exact ⟨k, (firstAt_succ_iff.mp hfirst).2⟩

/-- Where one object of the sequence has a member, there is a first one. -/
theorem exists_firstAt {k : Nat} (hp : h.prototypeAt o k = some p)
    (hv : h.own? p.frame name = some value) :
    ∃ j v, h.FirstAt o name j v := by
  induction k generalizing o with
  | zero =>
      cases hp
      exact ⟨0, value, firstAt_zero_iff.mpr hv⟩
  | succ k ih =>
      cases hown : h.own? o.frame name with
      | some v => exact ⟨0, v, firstAt_zero_iff.mpr hown⟩
      | none =>
          rw [prototypeAt_succ] at hp
          obtain ⟨q, hq, hp⟩ := Option.bind_eq_some_iff.mp hp
          obtain ⟨j, v, hfirst⟩ := ih hp
          exact ⟨j + 1, v, firstAt_succ_iff.mpr ⟨hown, q, hq, hfirst⟩⟩

/-- A look-up with room for some objects finds the member if it is in one of them. -/
theorem lookupWithin_eq_some_iff {room : Nat} :
    h.lookupWithin name room o = some value ↔ ∃ k < room, h.FirstAt o name k value := by
  induction room generalizing o with
  | zero => simp [lookupWithin]
  | succ room ih =>
      rw [Nat.exists_lt_succ_left, firstAt_zero_iff]
      simp only [firstAt_succ_iff]
      rw [lookupWithin]
      cases hv : h.own? o.frame name with
      | some v => simp
      | none =>
          cases hp : h.prototype? o with
          | none => simp
          | some p => simp [ih]

/-- The frames of the heap that were not seen yet. -/
def unseen (h : Heap) (seen : List FrameId) : Finset FrameId :=
  (Finset.range h.size).filter (· ∉ seen)

theorem mem_unseen {seen : List FrameId} {f : FrameId} : f ∈ h.unseen seen ↔ f < h.size ∧ f ∉ seen := by
  simp [unseen]

theorem card_unseen_cons_lt {seen : List FrameId} {f : FrameId} (hf : f ∈ h.unseen seen) :
    (h.unseen (f :: seen)).card < (h.unseen seen).card := by
  refine Finset.card_lt_card (Finset.ssubset_iff_of_subset ?_ |>.mpr ⟨f, hf, ?_⟩)
  · intro g hg
    simp only [mem_unseen, List.mem_cons, not_or] at hg ⊢
    exact ⟨hg.1, hg.2.2⟩
  · simp [mem_unseen]

/-- Looks a member up along the prototypes of an object, up to an object that was seen before. -/
def searchUnseen (h : Heap) (name : String) (seen : List FrameId) (o : Object) : Option Value :=
  if hseen : o.frame ∈ seen then none
  else
    match h.own? o.frame name with
    | some value => some value
    | none =>
        match hp : h.prototype? o with
        | some p =>
            have := card_unseen_cons_lt (mem_unseen.mpr ⟨lt_size_of_prototype? hp, hseen⟩)
            h.searchUnseen name (o.frame :: seen) p
        | none => none
  termination_by (h.unseen seen).card

/-- What the search finds is the member of the first object that has one. -/
theorem firstAt_of_searchUnseen {seen : List FrameId} (hv : h.searchUnseen name seen o = some value) :
    ∃ k < (h.unseen seen).card, h.FirstAt o name k value := by
  fun_induction searchUnseen h name seen o with
  | case1 => cases hv
  | case2 seen o hseen v hown =>
      cases hv
      refine ⟨0, ?_, firstAt_zero_iff.mpr hown⟩
      exact Finset.card_pos.mpr ⟨o.frame, mem_unseen.mpr ⟨lt_size_of_own? hown, hseen⟩⟩
  | case3 seen o hseen hown p hp hfewer ih =>
      obtain ⟨k, hk, hfirst⟩ := ih hv
      refine ⟨k + 1, Nat.lt_of_le_of_lt hk hfewer, ?_⟩
      exact firstAt_succ_iff.mpr ⟨hown, p, hp, hfirst⟩
  | case4 => cases hv

/-- The objects that were seen have no member of that name, and their prototypes were seen as well or are
the next object. -/
def Exhausted (h : Heap) (name : String) (seen : List FrameId) (next : Object) : Prop :=
  ∀ p : Object, p.frame ∈ seen → h.own? p.frame name = none ∧
    ∀ q, h.prototype? p = some q → q.frame ∈ next.frame :: seen

theorem prototype?_eq_of_frame (hframe : p.frame = o.frame) : h.prototype? p = h.prototype? o := by
  rw [prototype?, prototype?, hframe]

theorem Exhausted.cons {seen : List FrameId} (hx : h.Exhausted name seen o)
    (hown : h.own? o.frame name = none) (hp : h.prototype? o = some p) :
    h.Exhausted name (o.frame :: seen) p := by
  intro q hq
  rcases List.mem_cons.mp hq with hframe | hq
  · rw [prototype?_eq_of_frame hframe, hframe, hp]
    refine ⟨hown, ?_⟩
    rintro r ⟨⟩
    exact List.mem_cons_self
  · obtain ⟨hnone, hnext⟩ := hx q hq
    exact ⟨hnone, fun r hr => List.mem_cons_of_mem _ (hnext r hr)⟩

/-- From an object that comes again the sequence stays within what was seen. -/
theorem Exhausted.not_firstAt {seen : List FrameId} (hx : h.Exhausted name seen o) (hseen : o.frame ∈ seen)
    (k : Nat) : ¬h.FirstAt o name k value := by
  have hstays (j : Nat) {q : Object} (hq : h.prototypeAt o j = some q) : q.frame ∈ seen := by
    induction j generalizing q with
    | zero =>
        cases hq
        exact hseen
    | succ j ih =>
        obtain ⟨r, hr, hq⟩ := Option.bind_eq_some_iff.mp hq
        rcases List.mem_cons.mp ((hx r (ih hr)).2 q hq) with hq | hq
        · rw [hq]
          exact hseen
        · exact hq
  rintro ⟨⟨q, hq, hv⟩, -⟩
  rw [(hx q (hstays k hq)).1] at hv
  cases hv

/-- The search misses no object, though it stops at the first that comes again. -/
theorem searchUnseen_of_firstAt {seen : List FrameId} {k : Nat} (hx : h.Exhausted name seen o)
    (hfirst : h.FirstAt o name k value) : h.searchUnseen name seen o = some value := by
  fun_induction searchUnseen h name seen o generalizing k with
  | case1 seen o hseen => exact absurd hfirst (hx.not_firstAt hseen k)
  | case2 seen o hseen v hown => rw [hfirst.eq_of_own? hown]
  | case3 seen o hseen hown p hp hfewer ih =>
      obtain ⟨j, q, hq, hfirst⟩ := hfirst.next hown
      rw [hp] at hq
      cases hq
      exact ih (hx.cons hown hp) hfirst
  | case4 seen o hseen hown hp =>
      obtain ⟨j, q, hq, -⟩ := hfirst.next hown
      rw [hp] at hq
      cases hq

theorem searchUnseen_eq_some_iff :
    h.searchUnseen name [] o = some value ↔ ∃ k, h.FirstAt o name k value := by
  constructor
  · intro hv
    obtain ⟨k, -, hfirst⟩ := firstAt_of_searchUnseen hv
    exact ⟨k, hfirst⟩
  · rintro ⟨k, hfirst⟩
    exact searchUnseen_of_firstAt nofun hfirst

/-- There is room for all objects that are not seen yet when the look-up starts. -/
theorem lookup_eq_searchUnseen (h : Heap) (o : Object) (name : String) :
    h.lookup o name = h.searchUnseen name [] o := by
  have hall : (h.unseen []).card = h.size := by simp [unseen]
  ext value
  constructor
  · intro hv
    obtain ⟨k, -, hfirst⟩ := lookupWithin_eq_some_iff.mp hv
    exact searchUnseen_eq_some_iff.mpr ⟨k, hfirst⟩
  · intro hv
    have hfirst := firstAt_of_searchUnseen hv
    rw [hall] at hfirst
    exact lookupWithin_eq_some_iff.mpr hfirst

/-- Members depend on the bindings of frames alone. -/
theorem firstAt_congr {k : Heap} (hb : ∀ f, k.bindings f = h.bindings f) {n : Nat} :
    k.FirstAt o name n value ↔ h.FirstAt o name n value := by
  have hown : k.own? = h.own? := by
    funext f name
    rw [own?, own?, hb]
  have hprototype : k.prototype? = h.prototype? := by
    funext p
    rw [prototype?, prototype?, hown]
  have hsequence (n : Nat) : k.prototypeAt o n = h.prototypeAt o n := by
    induction n with
    | zero => rfl
    | succ n ih => rw [prototypeAt, prototypeAt, ih, hprototype]
  constructor
  · rintro ⟨hfound, hbefore⟩
    simp only [hsequence, hown] at hfound hbefore
    exact ⟨hfound, hbefore⟩
  · rintro ⟨hfound, hbefore⟩
    simp only [← hsequence, ← hown] at hfound hbefore
    exact ⟨hfound, hbefore⟩

/-- On every heap, a look-up ends as the search does that stops at the first object seen before. It gives
the member of the first object in the sequence of prototypes that has one, and nothing exactly if no
object of the sequence has one. The parents of frames make no difference. -/
theorem lookup_follows_prototypes (h : Heap) (o : Object) (name : String) :
    h.lookup o name = h.searchUnseen name [] o ∧
    (∀ value, h.lookup o name = some value ↔ ∃ k, h.FirstAt o name k value) ∧
    (h.lookup o name = none ↔ ∀ k p, h.prototypeAt o k = some p → h.own? p.frame name = none) ∧
    ∀ other : Heap, (∀ f, other.bindings f = h.bindings f) → other.lookup o name = h.lookup o name := by
  have hsome (h : Heap) (value : Value) :
      h.lookup o name = some value ↔ ∃ k, h.FirstAt o name k value := by
    rw [lookup_eq_searchUnseen, searchUnseen_eq_some_iff]
  refine ⟨lookup_eq_searchUnseen h o name, hsome h, ?_, ?_⟩
  · constructor
    · intro hnone k p hp
      refine Option.eq_none_iff_forall_ne_some.mpr fun value hv => ?_
      obtain ⟨j, v, hfirst⟩ := exists_firstAt hp hv
      rw [(hsome h v).mpr ⟨j, hfirst⟩] at hnone
      cases hnone
    · intro hall
      refine Option.eq_none_iff_forall_ne_some.mpr fun value hv => ?_
      obtain ⟨k, ⟨p, hp, hown⟩, -⟩ := (hsome h value).mp hv
      rw [hall k p hp] at hown
      cases hown
  · intro other hb
    ext value
    rw [hsome, hsome]
    simp only [firstAt_congr hb]

/-- Three objects: the prototypes of the second and the third are each other, and the first, whose frame has
a parent, comes before them. -/
def circle (parent : Option FrameId) : Heap where
  frames := #[
    { parent, bindings := ⟨[(prototypeName, .object ⟨none, 1⟩)]⟩ },
    { bindings := ⟨[(prototypeName, .object ⟨none, 2⟩), ("y", .int 7)]⟩ },
    { bindings := ⟨[(prototypeName, .object ⟨none, 1⟩)]⟩ },
    { bindings := ⟨[("z", .int 8)]⟩ }]

/-- A member of the second object is found, and one that the circle lacks is not, though a parent binds its
name. -/
theorem lookup_follows_prototypes_circle :
    let h := circle (some 3)
    let o : Object := ⟨none, 0⟩
    (∃ k, h.FirstAt o "y" k (.int 7)) ∧
    (∀ k p, h.prototypeAt o k = some p → h.own? p.frame "z" = none) ∧
      h.searchUnseen "z" [] o = none ∧ (circle none).lookup o "z" = h.lookup o "z" := by
  intro h o
  obtain ⟨hsearch, -, hnone, hparents⟩ := lookup_follows_prototypes h o "z"
  have hz : h.lookup o "z" = none := rfl
  refine ⟨((lookup_follows_prototypes h o "y").2.1 (.int 7)).mp rfl, hnone.mp hz, hsearch.symm.trans hz, ?_⟩
  refine hparents (circle none) fun f => ?_
  rcases f with _ | _ | _ | _ | f <;> rfl

end ProtoScript.Heap
