import ProtoScript.Proofs.Eval.Outcome
import ProtoScript.Proofs.Session.Concatenation

/-!
# Steps on record

What was done on the way cannot always be told from the state at the end. For statements about it a
record is kept beside the state. Steps on record do what the same steps do without it, so that whatever
the record shows has happened there, too.
-/

namespace ProtoScript

/-- A step of a state with a record beside it, oldest entry first. -/
abbrev OnRecord (ε σ ω : Type) := EStateM ε (σ × List ω)

namespace OnRecord
variable {ε σ ω α β : Type}

/-- A step that leaves nothing on record. -/
def quiet (step : EStateM ε σ α) : OnRecord ε σ ω α := fun (s, record) =>
  match step s with
  | .ok a t => .ok a (t, record)
  | .error e t => .error e (t, record)

/-- A step that is put on record with the state it started in and what came of it. -/
def noted (entry : σ → EStateM.Result ε σ α → ω) (step : EStateM ε σ α) : OnRecord ε σ ω α :=
  fun (s, record) =>
    match step s with
    | .ok a t => .ok a (t, record ++ [entry s (.ok a t)])
    | .error e t => .error e (t, record ++ [entry s (.error e t)])

/-- A result without the record. -/
def forget : EStateM.Result ε (σ × List ω) α → EStateM.Result ε σ α
  | .ok a (t, _) => .ok a t
  | .error e (t, _) => .error e t

/-- The state and the record that a step leaves behind. -/
def final : EStateM.Result ε (σ × List ω) α → σ × List ω
  | .ok _ t => t
  | .error _ t => t

theorem record_quiet (step : EStateM ε σ α) (s : σ) (record : List ω) :
    (final (quiet step (s, record))).2 = record := by
  rw [quiet]
  cases step s <;> rfl

/-- Whatever is on record already, the step on record does what the step does. -/
def Mirrors (m : OnRecord ε σ ω α) (n : EStateM ε σ α) : Prop :=
  ∀ s record, forget (m (s, record)) = n s

namespace Mirrors

theorem pure (a : α) : Mirrors (ω := ω) (Pure.pure a) (Pure.pure a : EStateM ε σ α) :=
  fun _ _ => rfl

theorem quiet (step : EStateM ε σ α) : Mirrors (ω := ω) (OnRecord.quiet step) step := by
  intro s record
  simp only [OnRecord.quiet]
  cases step s <;> rfl

theorem noted (entry : σ → EStateM.Result ε σ α → ω) (step : EStateM ε σ α) :
    Mirrors (OnRecord.noted entry step) step := by
  intro s record
  simp only [OnRecord.noted]
  cases step s <;> rfl

theorem bind {m : OnRecord ε σ ω α} {n : EStateM ε σ α} {k : α → OnRecord ε σ ω β}
    {l : α → EStateM ε σ β} (hm : Mirrors m n) (hk : ∀ a, Mirrors (k a) (l a)) :
    Mirrors (m >>= k) (n >>= l) := by
  intro s record
  have h := hm s record
  rw [Eval.bind_apply, Eval.bind_apply, ← h]
  rcases m (s, record) with ⟨a, t, noted⟩ | ⟨e, t, noted⟩
  · exact hk a t noted
  · rfl

end Mirrors

end OnRecord

end ProtoScript
