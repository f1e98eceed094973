/-!
# Insertion-ordered tables

A table keeps one entry per key, in the order in which the keys first came. Writing to a key that is
already there changes its value and keeps its place. Binding frames, the traceback of a reporter and
the queue of a session are tables.
-/

namespace ProtoScript

/-- A finite map from `κ` to `α` whose entries stand in the order of first insertion. -/
structure Table (κ α : Type) where
  entries : List (κ × α) := []

namespace Table
variable {κ α : Type} [DecidableEq κ]

instance : Inhabited (Table κ α) := ⟨{}⟩

/-- The value of the first entry at `key`. -/
def find (key : κ) : List (κ × α) → Option α
  | [] => none
  | entry :: rest => if entry.1 = key then some entry.2 else find key rest

/-- The value at `key`, if the table has one. -/
def get? (t : Table κ α) (key : κ) : Option α :=
  find key t.entries

/-- The keys, oldest first. -/
def keys (t : Table κ α) : List κ :=
  t.entries.map Prod.fst

/-- Replaces the value at `key` where it stands, or adds the entry at the end. -/
def put (key : κ) (value : α) : List (κ × α) → List (κ × α)
  | [] => [(key, value)]
  | entry :: rest => if entry.1 = key then (key, value) :: rest else entry :: put key value rest

/-- The table with `value` at `key`. -/
def set (t : Table κ α) (key : κ) (value : α) : Table κ α :=
  ⟨put key value t.entries⟩

/-- The table without the entry at `key`. -/
def erase (t : Table κ α) (key : κ) : Table κ α :=
  ⟨t.entries.filter fun entry => entry.1 ≠ key⟩

theorem find_put_self (key : κ) (value : α) (entries : List (κ × α)) :
    find key (put key value entries) = some value := by
  induction entries with
  | nil => simp [put, find]
  | cons entry rest ih => by_cases h : entry.1 = key <;> simp [put, find, h, ih]

theorem find_put_of_ne {key other : κ} (h : other ≠ key) (value : α)
    (entries : List (κ × α)) : find other (put key value entries) = find other entries := by
  induction entries with
  | nil => simp [put, find, Ne.symm h]
  | cons entry rest ih =>
      by_cases he : entry.1 = key
      · simp [put, find, he, Ne.symm h]
      · simp [put, find, he, ih]

/-- A write is read back. -/
@[simp] theorem get?_set_self (t : Table κ α) (key : κ) (value : α) :
    (t.set key value).get? key = some value :=
  find_put_self key value t.entries

/-- A write leaves every other key alone. -/
theorem get?_set_of_ne {t : Table κ α} {key other : κ} (h : other ≠ key) (value : α) :
    (t.set key value).get? other = t.get? other :=
  find_put_of_ne h value t.entries

/-- A write keeps the order of the keys, and adds a new key at the end. -/
theorem keys_set (t : Table κ α) (key : κ) (value : α) :
    (t.set key value).keys = if key ∈ t.keys then t.keys else t.keys ++ [key] := by
  obtain ⟨entries⟩ := t
  simp only [keys, set]
  induction entries with
  | nil => simp [put]
  | cons entry rest ih =>
      by_cases h : entry.1 = key
      · simp [put, h]
      · by_cases hr : key ∈ rest.map Prod.fst
        · simp [put, h, ih, hr]
        · simp [put, h, ih, hr, Ne.symm h]

end Table

end ProtoScript
