import JavaModel.Proofs.SourceSet.Filling

/-! Source sets whose ids are 32 bits wide. Behind its last value the counter begins anew, and a unit
takes the place of the unit that has its id. The ids handed out are distinct just as long as there
are at most 2 ^ 32 of them. Up to there whatever unit is added has an id of its own; later on the set
stays what it stands for as long as units are added under ids that no other unit has. -/

namespace JavaModel

namespace SourceSet

variable {s : SourceSet} {u : SourceUnit}

/-- Hands out an id from a counter of 32 bits. -/
def reserveWrapping (s : SourceSet) : UnitId × SourceSet :=
  (⟨s.nextId⟩, { s with nextId := (s.nextId + 1) % UInt32.size })

/-- Adds a unit in the place of the unit that has its id, or else behind all others. -/
def insertReplacing (s : SourceSet) (u : SourceUnit) : SourceSet × List String :=
  let (index, duplicates) := enter s.index u.classes
  let units :=
    if (s.unit? u.id).isSome then s.units.map fun v => if v.id = u.id then u else v
    else s.units ++ [u]
  ({ s with units, index }, duplicates)

/-- Below the last value the width of the counter makes no difference. -/
theorem reserveWrapping_eq (h : s.nextId + 1 < UInt32.size) : s.reserveWrapping = s.reserveId := by
  rw [reserveWrapping, reserveId, Nat.mod_eq_of_lt h]

/-- A unit with an id of its own replaces none. -/
theorem insertReplacing_eq (h : ∀ v ∈ s.units, v.id ≠ u.id) : s.insertReplacing u = s.insert u := by
  have hnone : s.unit? u.id = none := List.find?_eq_none.mpr (by simpa using h)
  simp [insertReplacing, insert, hnone]

end SourceSet

namespace Filling

open SourceSet

variable {f g : Filling} {u : SourceUnit}

/-! ### Steps -/

/-- The number of ids handed out, be they used or not. -/
def handed (f : Filling) : Nat := f.unused.length + f.set.units.length

/-- The id that is handed out behind `n` others. -/
def idAt (n : Nat) : UnitId := ⟨n % UInt32.size⟩

def reserveWrapping (f : Filling) : Filling :=
  ⟨f.set.reserveWrapping.2, f.set.reserveWrapping.1 :: f.unused⟩

def insertReplacing (f : Filling) (u : SourceUnit) : Filling :=
  ⟨(f.set.insertReplacing u).1, f.unused.erase u.id⟩

/-- The unit was read from some text under an id of its own: one that was handed out for it and that,
as soon as ids have been handed out twice, no other unit has. -/
structure Owns (f : Filling) (u : SourceUnit) : Prop where
  awaits : f.Awaits u
  own : UInt32.size < f.handed → ∀ v ∈ f.set.units, v.id ≠ u.id

/-- What may happen to a source set whose ids are 32 bits wide. -/
inductive Turn (f : Filling) : Filling → Prop
  | reserve : Turn f f.reserveWrapping
  | insert (u : SourceUnit) : f.Owns u → Turn f (f.insertReplacing u)

/-! ### What every step preserves -/

/-- The ids handed out are those that the counter runs through, over and over again. -/
structure Cyclic (f : Filling) : Prop where
  ids : (f.unused ++ f.set.units.map (·.id)).Perm ((List.range f.handed).map idAt)
  next : f.set.nextId = f.handed % UInt32.size
  consistent : f.set.Consistent

/-- No id has been handed out twice just as long as there are no more ids than 32 bits tell apart. -/
theorem Cyclic.nodup_iff (h : f.Cyclic) :
    (f.unused ++ f.set.units.map (·.id)).Nodup ↔ f.handed ≤ UInt32.size := by
  rw [h.ids.nodup_iff, List.nodup_map_iff_inj_on List.nodup_range]
  constructor
  · intro hdistinct
    refine Nat.le_of_not_lt fun hmore => ?_
    have hfirst := hdistinct 0 (List.mem_range.mpr (Nat.zero_lt_of_lt hmore)) UInt32.size
      (List.mem_range.mpr hmore) (by decide)
    cases hfirst
  · intro hfew m hm n hn hsame
    have hm := List.mem_range.mp hm
    have hn := List.mem_range.mp hn
    have hmod : m % UInt32.size = n % UInt32.size := congrArg UnitId.number hsame
    rwa [Nat.mod_eq_of_lt (Nat.lt_of_lt_of_le hm hfew),
      Nat.mod_eq_of_lt (Nat.lt_of_lt_of_le hn hfew)] at hmod

/-- Whether ids have been handed out twice or not, no other unit has the id of the unit to come. -/
theorem Cyclic.own (h : f.Cyclic) (hu : f.Owns u) : ∀ v ∈ f.set.units, v.id ≠ u.id := by
  by_cases hfew : f.handed ≤ UInt32.size
  · exact own_of_nodup (h.nodup_iff.mpr hfew) hu.awaits.1
  · exact hu.own (Nat.lt_of_not_le hfew)

theorem Cyclic.insertReplacing_eq (h : f.Cyclic) (hu : f.Owns u) :
    f.insertReplacing u = f.insert u := by
  rw [insertReplacing, SourceSet.insertReplacing_eq (h.own hu)]
  rfl

theorem handed_reserveWrapping (f : Filling) : f.reserveWrapping.handed = f.handed + 1 :=
  Nat.add_right_comm ..

theorem handed_insert (hu : f.Awaits u) : (f.insert u).handed = f.handed := by
  have hpos := List.length_pos_of_mem hu.1
  change (f.unused.erase u.id).length + (f.set.units ++ [u]).length = f.handed
  rw [List.length_erase_of_mem hu.1, List.length_append, List.length_singleton, handed]
  omega

theorem Cyclic.reserveWrapping (h : f.Cyclic) : f.reserveWrapping.Cyclic := by
  refine ⟨?_, ?_, h.consistent.reserve _⟩
  · have hid : f.set.reserveWrapping.1 = idAt f.handed := congrArg UnitId.mk h.next
    rw [handed_reserveWrapping, List.range_succ, List.map_append, List.map_singleton, ← hid]
    exact (h.ids.cons _).trans (List.perm_append_singleton _ _).symm
  · change (f.set.nextId + 1) % UInt32.size = f.reserveWrapping.handed % UInt32.size
    rw [handed_reserveWrapping, h.next, Nat.mod_add_mod]

theorem Cyclic.insert (h : f.Cyclic) (hu : f.Owns u) : (f.insert u).Cyclic := by
  refine ⟨?_, ?_, h.consistent.insert hu.awaits.placed (h.own hu)⟩
  · rw [handed_insert hu.awaits]
    exact (perm_insert hu.awaits.1).trans h.ids
  · rw [handed_insert hu.awaits]
    exact h.next

theorem Cyclic.turn (h : f.Cyclic) (hturn : f.Turn g) : g.Cyclic := by
  cases hturn with
  | reserve => exact h.reserveWrapping
  | insert u hu =>
    rw [h.insertReplacing_eq hu]
    exact h.insert hu

/-- Fewer ids than 32 bits tell apart are handed out as by a counter without a bound. -/
theorem Cyclic.step (h : f.Cyclic) (hturn : f.Turn g) (hfew : g.handed < UInt32.size) :
    f.Step g ∧ f.handed < UInt32.size := by
  cases hturn with
  | reserve =>
    rw [handed_reserveWrapping] at hfew
    have hlt : f.handed < UInt32.size := Nat.lt_of_succ_lt hfew
    have hnext : f.set.nextId = f.handed := h.next.trans (Nat.mod_eq_of_lt hlt)
    have hsame : f.reserveWrapping = f.reserve := by
      rw [Filling.reserveWrapping, reserveWrapping_eq (hnext ▸ hfew)]
      rfl
    exact ⟨hsame ▸ .reserve, hlt⟩
  | insert u hu =>
    rw [h.insertReplacing_eq hu] at hfew ⊢
    exact ⟨.insert u hu.awaits, handed_insert hu.awaits ▸ hfew⟩

/-! ### Whole runs -/

theorem Cyclic.reach (h : f.Cyclic) (hreach : Relation.ReflTransGen Turn f g) : g.Cyclic := by
  induction hreach with
  | refl => exact h
  | tail _ hturn ih => exact ih.turn hturn

theorem Cyclic.steps (h : f.Cyclic) (hreach : Relation.ReflTransGen Turn f g)
    (hfew : g.handed < UInt32.size) : Relation.ReflTransGen Step f g := by
  induction hreach with
  | refl => exact .refl
  | tail hreach hturn ih =>
    obtain ⟨hstep, hfew⟩ := (h.reach hreach).step hturn hfew
    exact (ih hfew).tail hstep

end Filling

end JavaModel
