/-
Finite tables: at most one value under each key. A new value goes to the front, and the value
it replaces is taken out, so the number of entries is the number of keys.
-/

namespace InferenceStore

structure Table (κ α : Type) where
  entries : List (κ × α)

namespace Table

variable {κ α : Type} [DecidableEq κ]

def empty : Table κ α := ⟨[]⟩

def lookup (key : κ) : List (κ × α) → Option α
  | [] => none
  | (name, value) :: rest => if name = key then some value else lookup key rest

def without (key : κ) (entries : List (κ × α)) : List (κ × α) :=
  entries.filter fun entry => decide (entry.1 ≠ key)

def get? (table : Table κ α) (key : κ) : Option α := lookup key table.entries

def set (table : Table κ α) (key : κ) (value : α) : Table κ α :=
  { entries := (key, value) :: without key table.entries }

def remove (table : Table κ α) (key : κ) : Table κ α :=
  { entries := without key table.entries }

def size (table : Table κ α) : Nat := table.entries.length

theorem lookup_without (key other : κ) (entries : List (κ × α)) :
    lookup other (without key entries) = if other = key then none else lookup other entries := by
  induction entries with
  | nil => simp [without, lookup]
  | cons entry rest ih =>
      obtain ⟨name, value⟩ := entry
      unfold without at ih ⊢
      by_cases dropped : name = key
      · subst dropped
        by_cases same : other = name
        · subst same
          simpa using ih
        · have missed : ¬ name = other := fun equal => same equal.symm
          simpa [lookup, same, missed] using ih
      · by_cases found : name = other
        · subst found
          simp [lookup, dropped]
        · simpa [lookup, dropped, found] using ih

theorem get?_empty (key : κ) : (empty : Table κ α).get? key = none := rfl

theorem get?_set (table : Table κ α) (key other : κ) (value : α) :
    (table.set key value).get? other = if other = key then some value else table.get? other := by
  unfold get? set
  by_cases same : other = key
  · subst same
    simp [lookup]
  · have missed : ¬ key = other := fun equal => same equal.symm
    simp [lookup, missed, same, lookup_without]

theorem get?_remove (table : Table κ α) (key other : κ) :
    (table.remove key).get? other = if other = key then none else table.get? other :=
  lookup_without key other table.entries

end Table

end InferenceStore
