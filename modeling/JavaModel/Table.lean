/-!
Finite maps as lists of pairs. The first pair with a key counts.
-/

namespace JavaModel

/-- A finite map, newest pairs last. -/
structure Table (κ α : Type) where
  entries : List (κ × α)
deriving Repr

namespace Table

variable {κ α : Type}

instance : Inhabited (Table κ α) := ⟨⟨[]⟩⟩

def empty : Table κ α := ⟨[]⟩

variable [DecidableEq κ]

/-- The value of a key. -/
def find? (t : Table κ α) (k : κ) : Option α := (t.entries.find? fun e => e.1 = k).map Prod.snd

/-- Whether a key has a value. -/
def contains (t : Table κ α) (k : κ) : Bool := (t.find? k).isSome

/-- Gives a key its value, unless it has one. -/
def record (t : Table κ α) (k : κ) (a : α) : Table κ α :=
  if t.contains k then t else ⟨t.entries ++ [(k, a)]⟩

@[simp] theorem find?_empty (k : κ) : (empty : Table κ α).find? k = none := rfl

theorem find?_record (t : Table κ α) (k : κ) (a : α) (k' : κ) :
    (t.record k a).find? k' = (t.find? k').or (if k = k' then some a else none) := by
  by_cases h : t.contains k
  · rw [record, if_pos h]
    by_cases hk : k = k'
    · subst hk
      obtain ⟨b, hb⟩ := Option.isSome_iff_exists.1 h
      simp [hb]
    · simp [hk]
  · rw [record, if_neg h]
    simp only [find?, List.find?_append]
    cases t.entries.find? fun e => e.1 = k' with
    | some e => simp
    | none => by_cases hk : k = k' <;> simp [hk]

/-- A value once recorded stays. -/
theorem find?_record_of_some {t : Table κ α} {k' : κ} {b : α} (h : t.find? k' = some b) (k : κ)
    (a : α) : (t.record k a).find? k' = some b := by
  simp [find?_record, h]

end Table

end JavaModel
