import ProtoScript.Eval.Basic
import ProtoScript.Proofs.Heap.Prototype
import ProtoScript.Proofs.Text.Messages

/-!
# Names along parents

Reading a name and assigning to it walk along the parents of a frame to the nearest frame that binds the
name, so they find the same frame. Frames are shared: many chains of parents run through one frame. A
write to a frame is thus seen from every frame whose chain gets there before it meets another binding of
the name, and from no other.
-/

namespace ProtoScript

namespace Heap
variable {h k : Heap} {P Q : FrameId → Prop} {f g p : FrameId} {steps : Nat} {name : String} {value : Value}

/-- On the way from `f` along the parents `g` is the first frame with the property, behind `steps` frames
without it. -/
inductive FirstAfter (h : Heap) (P : FrameId → Prop) : (steps : Nat) → (f g : FrameId) → Prop
  | here {f : FrameId} (hf : P f) : FirstAfter h P 0 f f
  | above {steps : Nat} {f p g : FrameId} (hf : ¬P f) (hp : h.parent? f = some p)
      (hg : FirstAfter h P steps p g) : FirstAfter h P (steps + 1) f g

/-- On the way from `f` along the parents `g` is the first frame with the property. -/
def First (h : Heap) (P : FrameId → Prop) (f g : FrameId) : Prop :=
  ∃ steps, h.FirstAfter P steps f g

/-- The nearest frame that binds a name, as seen from `f`. -/
def Nearest (h : Heap) (name : String) (f g : FrameId) : Prop :=
  h.First (h.binds · name) f g

/-- Whether the way from `f` along the parents gets to `g` before any other frame that binds the name. -/
def Uncovered (h : Heap) (name : String) (f g : FrameId) : Prop :=
  h.First (fun x => x = g ∨ h.binds x name) f g

/-- There is one way, and it ends at the first frame. -/
theorem FirstAfter.unique {n : Nat} {x : FrameId} (hg : h.FirstAfter P steps f g)
    (hx : h.FirstAfter P n f x) : steps = n ∧ g = x := by
  induction hg generalizing n with
  | here hf =>
      cases hx with
      | here => exact ⟨rfl, rfl⟩
      | above hn => exact absurd hf hn
  | above hn hp _ ih =>
      cases hx with
      | here hf => exact absurd hf hn
      | above _ hq hx =>
          rw [hp] at hq
          cases hq
          obtain ⟨rfl, rfl⟩ := ih hx
          exact ⟨rfl, rfl⟩

theorem lt_size_of_parent? (hp : h.parent? f = some p) : f < h.size := by
  refine Nat.lt_of_not_le fun hf => ?_
  rw [parent?, frames_eq_none hf] at hp
  cases hp

/-- A frame comes once on the way, as there is one number of steps from it. So the heap holds a frame for
each step. -/
theorem FirstAfter.lt_size (hP : ∀ x, P x → x < h.size) (hg : h.FirstAfter P steps f g) :
    steps < h.size := by
  have hseen : ∃ seen : Finset FrameId, seen.card = steps + 1 ∧
      ∀ x ∈ seen, x < h.size ∧ ∃ n ≤ steps, h.FirstAfter P n x g := by
    induction hg with
    | here hf => exact ⟨{_}, rfl, by simpa using ⟨hP _ hf, .here hf⟩⟩
    | @above steps f p g hn hp hg ih =>
        obtain ⟨seen, hcard, hseen⟩ := ih
        have hnew : f ∉ seen := by
          intro hf
          obtain ⟨-, n, hle, hagain⟩ := hseen f hf
          have := (hagain.unique (.above hn hp hg)).1
          omega
        refine ⟨insert f seen, by rw [Finset.card_insert_of_notMem hnew, hcard], ?_⟩
        intro x hx
        rcases Finset.mem_insert.mp hx with rfl | hx
        · exact ⟨lt_size_of_parent? hp, _, Nat.le_refl _, .above hn hp hg⟩
        · obtain ⟨hlt, n, hle, hagain⟩ := hseen x hx
          exact ⟨hlt, n, Nat.le_succ_of_le hle, hagain⟩
  obtain ⟨seen, hcard, hseen⟩ := hseen
  have hsub : seen ⊆ Finset.range h.size := fun x hx => Finset.mem_range.mpr (hseen x hx).1
  have hle := Finset.card_le_card hsub
  rw [hcard, Finset.card_range] at hle
  exact hle

theorem firstAfter_zero_iff : h.FirstAfter P 0 f g ↔ P f ∧ f = g := by
  constructor
  · intro hg
    cases hg with
    | here hf => exact ⟨hf, rfl⟩
  · rintro ⟨hf, rfl⟩
    exact .here hf

theorem firstAfter_succ_iff :
    h.FirstAfter P (steps + 1) f g ↔ ¬P f ∧ ∃ p, h.parent? f = some p ∧ h.FirstAfter P steps p g := by
  constructor
  · intro hg
    cases hg with
    | above hf hp hg => exact ⟨hf, _, hp, hg⟩
  · rintro ⟨hf, p, hp, hg⟩
    exact .above hf hp hg

theorem find?_chainWithin {room : Nat} :
    (h.chainWithin room f).find? (h.binds · name) = some g ↔
      ∃ steps < room, h.FirstAfter (h.binds · name) steps f g := by
  induction room generalizing f with
  | zero => simp [chainWithin]
  | succ room ih =>
      rw [Nat.exists_lt_succ_left, firstAfter_zero_iff]
      simp only [firstAfter_succ_iff]
      rw [chainWithin]
      cases hb : h.binds f name <;> cases hp : h.parent? f <;> simp [hb, ih]

/-- An assignment looks for the nearest frame. -/
theorem owner?_eq_some_iff : h.owner? f name = some g ↔ h.Nearest name f g := by
  rw [owner?, chain, find?_chainWithin]
  constructor
  · rintro ⟨steps, -, hg⟩
    exact ⟨steps, hg⟩
  · rintro ⟨steps, hg⟩
    exact ⟨steps, hg.lt_size fun _ => lt_size_of_binds, hg⟩

/-- Reading a name finds the frame that an assignment finds. -/
theorem resolve_eq_bind (h : Heap) (f : FrameId) (name : String) :
    h.resolve f name = (h.owner? f name).bind (h.own? · name) := by
  rw [resolve, owner?]
  induction h.chain f with
  | nil => rfl
  | cons x rest ih => cases hx : h.own? x name <;> simp [binds, hx, ih]

theorem resolve_eq_some_iff :
    h.resolve f name = some value ↔ ∃ g, h.Nearest name f g ∧ h.own? g name = some value := by
  simp only [resolve_eq_bind, Option.bind_eq_some_iff, owner?_eq_some_iff]

theorem Nearest.binds (hg : h.Nearest name f g) : h.binds g name = true := by
  obtain ⟨_, hg⟩ := hg
  induction hg with
  | here hf => exact hf
  | above _ _ _ ih => exact ih

theorem Nearest.resolve (hg : h.Nearest name f g) : h.resolve f name = h.own? g name := by
  rw [resolve_eq_bind, owner?_eq_some_iff.mpr hg]
  rfl

/-- The way along the parents depends on the parents and on the property alone. -/
theorem First.congr (hp : ∀ x, k.parent? x = h.parent? x) (hP : ∀ x, Q x ↔ P x)
    (hg : h.First P f g) : k.First Q f g := by
  obtain ⟨steps, hg⟩ := hg
  refine ⟨steps, ?_⟩
  induction hg with
  | here hf => exact .here ((hP _).mpr hf)
  | above hf hpar _ ih => exact .above (fun hq => hf ((hP _).mp hq)) ((hp _).trans hpar) ih

/-- Where the nearest frame itself is written to, it is met before any other that binds the name. -/
theorem uncovered_iff_nearest (hb : h.binds g name = true) :
    h.Uncovered name f g ↔ h.Nearest name f g := by
  have hsame (x : FrameId) : (x = g ∨ h.binds x name = true) ↔ h.binds x name = true := by
    refine ⟨?_, .inr⟩
    rintro (rfl | hx)
    · exact hb
    · exact hx
  exact ⟨.congr (fun _ => rfl) fun x => (hsame x).symm, .congr (fun _ => rfl) hsame⟩

/-- Where the frame is covered, the first frame that is it or binds the name is the nearest that binds
the name. -/
theorem first_iff_of_not_uncovered {x : FrameId} (hu : ¬h.Uncovered name f g) :
    h.First (fun x => x = g ∨ h.binds x name) f x ↔ h.Nearest name f x := by
  constructor
  · intro hx
    have hne : x ≠ g := by
      rintro rfl
      exact hu hx
    obtain ⟨steps, hx⟩ := hx
    refine ⟨steps, ?_⟩
    clear hu
    induction hx with
    | here hf => exact .here (hf.resolve_left hne)
    | above hf hp _ ih => exact .above (fun hb => hf (.inr hb)) hp (ih hne)
  · rintro ⟨steps, hx⟩
    refine ⟨steps, ?_⟩
    induction hx with
    | here hf => exact .here (.inr hf)
    | @above steps f p x hf hp _ ih =>
        have hnot : ¬(f = g ∨ h.binds f name = true) := by
          rintro (rfl | hb)
          · exact hu ⟨0, .here (.inl rfl)⟩
          · exact hf hb
        refine .above hnot hp (ih ?_)
        rintro ⟨n, hp'⟩
        exact hu ⟨n + 1, .above hnot hp hp'⟩

section Bind
variable (hg : g < h.size)
include hg

theorem binds_bind (x : FrameId) :
    (h.bind g name value).binds x name = true ↔ x = g ∨ h.binds x name = true := by
  by_cases hx : x = g <;> simp [binds, own?_bind, hg, hx]

theorem nearest_bind {x : FrameId} :
    (h.bind g name value).Nearest name f x ↔ h.First (fun x => x = g ∨ h.binds x name) f x :=
  ⟨.congr (fun _ => (parent?_bind ..).symm) fun x => (binds_bind hg x).symm,
    .congr (fun _ => parent?_bind ..) (binds_bind hg)⟩

/-- Other names are seen as before. -/
theorem resolve_bind_of_ne {other : String} (hn : other ≠ name) :
    (h.bind g name value).resolve f other = h.resolve f other := by
  have hown (x : FrameId) : (h.bind g name value).own? x other = h.own? x other := by
    rw [own?_bind h g x name other value hg, if_neg fun hx => hn hx.2]
  have hbinds (x : FrameId) :
      ((h.bind g name value).binds x other = true) ↔ h.binds x other = true := by
    rw [binds, binds, hown]
  ext v
  simp only [resolve_eq_some_iff, hown]
  refine exists_congr fun x => and_congr_left fun _ => ?_
  exact ⟨.congr (fun _ => (parent?_bind ..).symm) fun x => (hbinds x).symm,
    .congr (fun _ => parent?_bind ..) hbinds⟩

/-- The name is seen as written where nothing covers it. -/
theorem resolve_bind_of_uncovered (hu : h.Uncovered name f g) :
    (h.bind g name value).resolve f name = some value := by
  rw [((nearest_bind hg).mpr hu).resolve, own?_bind_self h g name value hg]

/-- Elsewhere the name is seen as before. -/
theorem resolve_bind_of_not_uncovered (hu : ¬h.Uncovered name f g) :
    (h.bind g name value).resolve f name = h.resolve f name := by
  ext v
  simp only [resolve_eq_some_iff, nearest_bind hg, first_iff_of_not_uncovered hu]
  refine exists_congr fun x => and_congr_right fun hx => ?_
  have hne : x ≠ g := by
    rintro rfl
    exact hu ((first_iff_of_not_uncovered hu).mpr hx)
  rw [own?_bind h g x name name value hg, if_neg fun hxg => hne hxg.1]

end Bind

/-- In both heaps frames see the same under every name, but for `name`: the frames with the property see
`value` under it in the second heap. -/
structure SeenFrom (P : FrameId → Prop) (h k : Heap) (name : String) (value : Value) : Prop where
  changed {f : FrameId} (hf : P f) : k.resolve f name = some value
  unchanged {f : FrameId} {other : String} (hf : other = name → ¬P f) :
    k.resolve f other = h.resolve f other

/-- A write to a frame is seen from where nothing covers it. -/
theorem seenFrom_bind (hg : g < h.size) (name : String) (value : Value) :
    SeenFrom (h.Uncovered name · g) h (h.bind g name value) name value where
  changed := resolve_bind_of_uncovered hg
  unchanged {f other} hf := by
    by_cases hn : other = name
    · subst hn
      exact resolve_bind_of_not_uncovered hg (hf rfl)
    · exact resolve_bind_of_ne hg hn

/-- The heaps have the same frames, with the same names under the same parents, and the same values but for
`name` in `frame`, which is `value` in the second heap. -/
structure Overwrites (h k : Heap) (frame : FrameId) (name : String) (value : Value) : Prop where
  written : k.own? frame name = some value
  others {f : FrameId} {other : String} (hf : f = frame → other ≠ name) : k.own? f other = h.own? f other
  names (f : FrameId) : (k.bindings f).keys = (h.bindings f).keys
  parent (f : FrameId) : k.parent? f = h.parent? f
  size : k.size = h.size
  functions : k.functions = h.functions

theorem mem_keys_of_binds (hb : h.binds f name = true) : name ∈ (h.bindings f).keys := by
  obtain ⟨value, hv⟩ := Option.isSome_iff_exists.mp hb
  exact List.mem_map.mpr ⟨_, Table.mem_of_get? hv, rfl⟩

/-- A binding that is there is overwritten in its place. -/
theorem overwrites_bind (hb : h.binds g name = true) (value : Value) :
    Overwrites h (h.bind g name value) g name value where
  written := own?_bind_self h g name value (lt_size_of_binds hb)
  others {f other} hf := by
    rw [own?_bind h g f name other value (lt_size_of_binds hb), if_neg fun hx => hf hx.1 hx.2]
  names f := by
    rw [bindings_bind h g f name value (lt_size_of_binds hb)]
    split
    · next hf =>
        subst hf
        rw [Table.keys_set, if_pos (mem_keys_of_binds hb)]
    · rfl
  parent f := parent?_bind h g f name value
  size := size_bind h g name value
  functions := rfl

end Heap

namespace Eval
variable {s t : State} {name : String} {value : Value} {fault : Fault}

/-- An assignment writes to the nearest frame that binds the name. -/
theorem assign_eq_ok_iff : assign name value s = .ok () t ↔
    ∃ owner, s.heap.Nearest name s.scope owner ∧ t = { s with heap := s.heap.bind owner name value } := by
  simp only [assign_apply, Heap.assign, ← Heap.owner?_eq_some_iff]
  cases s.heap.owner? s.scope name <;> simp [eq_comm]

theorem assign_fails (h : assign name value s = .error fault t) :
    fault = .error { cause := .undefined name } ∧ t = s := by
  rw [assign_apply, Heap.assign] at h
  cases ho : s.heap.owner? s.scope name with
  | some owner => simp [ho] at h
  | none =>
      simp only [ho, EStateM.Result.error.injEq] at h
      exact ⟨h.1.symm.trans (Fault.ofError_of_legible trivial), h.2.symm⟩

/-- A definition writes to the present frame. -/
theorem define_eq_ok_iff : define name value s = .ok () t ↔
    s.heap.own? s.scope name = none ∧ t = { s with heap := s.heap.bind s.scope name value } := by
  have happly : define name value s = defineIn s.scope name value s := rfl
  rw [happly, defineIn_apply, Heap.define, Heap.binds]
  cases s.heap.own? s.scope name <;> simp [eq_comm]

theorem define_fails (h : define name value s = .error fault t) :
    fault = .error { cause := .alreadyDefined name } ∧ t = s := by
  have happly : define name value s = defineIn s.scope name value s := rfl
  rw [happly, defineIn_apply, Heap.define] at h
  cases hb : s.heap.binds s.scope name with
  | false => simp [hb] at h
  | true =>
      simp only [hb, if_true, EStateM.Result.error.injEq] at h
      exact ⟨h.1.symm.trans (Fault.ofError_of_legible trivial), h.2.symm⟩

/-- Reading and assigning agree along every chain of parents, however many chains share a frame. An
assignment succeeds exactly if the name is seen; it overwrites the binding that was seen, and the new value
is seen from those frames that saw that binding, and from no other. A definition succeeds exactly if the
frame itself does not bind the name; the value is then seen from those frames whose chain gets to the frame
before any other that binds the name, and from no other. Nothing is changed by a failure. -/
theorem writes_agree_with_resolve (s : State) (hs : s.scope < s.heap.size) (name : String)
    (value : Value) :
    ((∃ t, assign name value s = .ok () t) ↔ ∃ old, s.heap.resolve s.scope name = some old) ∧
    (∀ t, assign name value s = .ok () t → t = { s with heap := t.heap } ∧
      ∃ owner, s.heap.Nearest name s.scope owner ∧
        s.heap.resolve s.scope name = s.heap.own? owner name ∧
        Heap.Overwrites s.heap t.heap owner name value ∧
        Heap.SeenFrom (s.heap.Nearest name · owner) s.heap t.heap name value) ∧
    (∀ fault t, assign name value s = .error fault t →
      fault = .error { cause := .undefined name } ∧ t = s) ∧
    ((∃ t, define name value s = .ok () t) ↔ s.heap.own? s.scope name = none) ∧
    (∀ t, define name value s = .ok () t → t = { s with heap := t.heap } ∧
      Heap.SeenFrom (s.heap.Uncovered name · s.scope) s.heap t.heap name value) ∧
    ∀ fault t, define name value s = .error fault t →
      fault = .error { cause := .alreadyDefined name } ∧ t = s := by
  refine ⟨?_, fun t ht => ?_, fun _ _ => assign_fails, ?_, fun t ht => ?_, fun _ _ => define_fails⟩
  · simp only [assign_eq_ok_iff, Heap.resolve_eq_some_iff]
    constructor
    · rintro ⟨_, owner, hn, -⟩
      obtain ⟨old, hold⟩ := Option.isSome_iff_exists.mp hn.binds
      exact ⟨old, owner, hn, hold⟩
    · rintro ⟨_, owner, hn, -⟩
      exact ⟨_, owner, hn, rfl⟩
  · obtain ⟨owner, hn, rfl⟩ := assign_eq_ok_iff.mp ht
    have hseen := Heap.seenFrom_bind (Heap.lt_size_of_binds hn.binds) name value
    simp only [Heap.uncovered_iff_nearest hn.binds] at hseen
    exact ⟨rfl, owner, hn, hn.resolve, Heap.overwrites_bind hn.binds value, hseen⟩
  · simp only [define_eq_ok_iff]
    exact ⟨fun ⟨_, hown, _⟩ => hown, fun hown => ⟨_, hown, rfl⟩⟩
  · obtain ⟨-, rfl⟩ := define_eq_ok_iff.mp ht
    exact ⟨rfl, Heap.seenFrom_bind hs name value⟩

/-- Two frames over one, and a third over the first of them, which binds the name anew. -/
def sharedFrames : Heap where
  frames := #[
    { bindings := ⟨[("x", .int 1)]⟩ },
    { parent := some 0, bindings := ⟨[("x", .int 2)]⟩ },
    { parent := some 0 },
    { parent := some 1 }]

/-- An assignment from the second frame is seen from the frame below it, and not from the third. -/
theorem writes_agree_with_resolve_shared :
    let s : State := { heap := sharedFrames, scope := 2 }
    s.scope < s.heap.size ∧ ∃ t, assign "x" (.int 9) s = .ok () t ∧
      t.heap.resolve 0 "x" = some (.int 9) ∧ t.heap.resolve 3 "x" = some (.int 2) := by
  intro s
  have hs : s.scope < s.heap.size := by decide
  obtain ⟨hsucceeds, heffect, -⟩ := writes_agree_with_resolve s hs "x" (.int 9)
  obtain ⟨t, ht⟩ := hsucceeds.mpr ⟨.int 1, rfl⟩
  obtain ⟨-, owner, hn, -, -, hseen⟩ := heffect t ht
  have howner : owner = 0 := Option.some.inj (Heap.owner?_eq_some_iff.mpr hn).symm
  subst howner
  refine ⟨hs, t, ht, hseen.changed (Heap.owner?_eq_some_iff.mp rfl), hseen.unchanged fun _ hthird => ?_⟩
  cases Heap.owner?_eq_some_iff.mpr hthird

end Eval

end ProtoScript
