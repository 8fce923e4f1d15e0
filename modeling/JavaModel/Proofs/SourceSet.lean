import JavaModel.Proofs.Model.Placement
import JavaModel.SourceSet

/-! Source sets as they grow: units and index entries are only added, so that a class once known
under a name stays the class of that name. In a valid set every name of the index leads to a class.
-/

namespace JavaModel

namespace SourceSet

variable {s t : SourceSet}

theorem class?_eq_some_iff {name : String} {c : Class} : s.class? name = some c ↔
    ∃ id u, s.index.find? name = some id ∧ s.unit? id.source = some u ∧ u.class? id = some c := by
  constructor
  · intro h
    obtain ⟨id, hid, h⟩ := Option.bind_eq_some_iff.mp h
    obtain ⟨u, hu, h⟩ := Option.bind_eq_some_iff.mp h
    exact ⟨id, u, hid, hu, h⟩
  · rintro ⟨id, u, hid, hu, hc⟩
    exact Option.bind_eq_some_iff.mpr ⟨id, hid, Option.bind_eq_some_iff.mpr ⟨u, hu, hc⟩⟩

/-! ### Growth -/

/-- `t` has the units of `s` and may have more behind them, and has all index entries of `s`. -/
structure Grows (s t : SourceSet) : Prop where
  units : s.units <+: t.units
  index : ∀ name id, s.index.find? name = some id → t.index.find? name = some id
  nextId : s.nextId ≤ t.nextId

theorem Grows.refl (s : SourceSet) : s.Grows s :=
  ⟨List.prefix_refl _, fun _ _ h => h, Nat.le_refl _⟩

theorem Grows.trans {r : SourceSet} (h : r.Grows s) (h' : s.Grows t) : r.Grows t :=
  ⟨h.units.trans h'.units, fun name id hid => h'.index name id (h.index name id hid),
    Nat.le_trans h.nextId h'.nextId⟩

theorem Grows.unit? (h : s.Grows t) {id : UnitId} {u : SourceUnit} (hu : s.unit? id = some u) :
    t.unit? id = some u := by
  obtain ⟨more, hmore⟩ := h.units
  unfold SourceSet.unit? at hu ⊢
  rw [← hmore, List.find?_append, hu]
  rfl

/-- A class once known stays known. -/
theorem Grows.class? (h : s.Grows t) {name : String} {c : Class} (hc : s.class? name = some c) :
    t.class? name = some c := by
  obtain ⟨id, u, hid, hu, hc⟩ := class?_eq_some_iff.mp hc
  exact class?_eq_some_iff.mpr ⟨id, u, h.index name id hid, h.unit? hu, hc⟩

theorem grows_reserveId (s : SourceSet) : s.Grows s.reserveId.2 :=
  ⟨List.prefix_refl _, fun _ _ h => h, Nat.le_succ _⟩

/-- Under each name the index keeps the entry that it has, and takes that of the first class of the
name else. -/
theorem find?_enter (index : Table String ClassId) (cs : List Class) (name : String) :
    (enter index cs).1.find? name =
      (index.find? name).or (cs.findSome? fun c => if c.fullName = name then c.id? else none) := by
  induction cs generalizing index with
  | nil => simp [enter]
  | cons c cs ih =>
    simp only [enter, List.findSome?_cons]
    cases hid : c.id? with
    | none => simp [ih]
    | some id =>
      cases hfirst : index.find? c.fullName with
      | some first =>
        by_cases hname : c.fullName = name
        · subst hname
          simp [ih, hfirst]
        · simp [ih, hname]
      | none =>
        by_cases hname : c.fullName = name
        · subst hname
          simp [ih, hfirst, Table.find?_record]
        · simp [ih, hname, Table.find?_record]

theorem grows_insert (s : SourceSet) (u : SourceUnit) : s.Grows (s.insert u).1 := by
  refine ⟨List.prefix_append _ _, fun name id hid => ?_, Nat.le_refl _⟩
  have hindex : (s.insert u).1.index = (enter s.index u.classes).1 := rfl
  rw [hindex, find?_enter, hid]
  rfl

/-! ### Validity -/

/-- Ids have been handed out for all units, and every name of the index leads to a class. -/
structure Valid (s : SourceSet) : Prop where
  below : ∀ u ∈ s.units, u.id.number < s.nextId
  known : ∀ name id, s.index.find? name = some id → (s.class? name).isSome

theorem valid_empty : empty.Valid := by
  refine ⟨fun u hu => ?_, fun name id hid => ?_⟩
  · simp [empty] at hu
  · simp [empty] at hid

/-- A name is in the index of a valid set just when it has a class. -/
theorem Valid.contains_iff (h : s.Valid) (name : String) :
    s.contains name = (s.class? name).isSome := by
  rw [Bool.eq_iff_iff]
  constructor
  · intro hc
    obtain ⟨id, hid⟩ := Option.isSome_iff_exists.mp hc
    exact h.known name id hid
  · intro hc
    obtain ⟨c, hc⟩ := Option.isSome_iff_exists.mp hc
    obtain ⟨id, _, hid, _⟩ := class?_eq_some_iff.mp hc
    simp [contains, Table.contains, hid]

/-- Ids may be handed out beforehand. -/
theorem Valid.reserve (h : s.Valid) {n : Nat} (hn : s.nextId ≤ n) :
    ({ s with nextId := n } : SourceSet).Valid :=
  ⟨fun u hu => Nat.lt_of_lt_of_le (h.below u hu) hn, h.known⟩

/-- A unit may be added: its classes are placed, and its id has been handed out and is no other
unit's. -/
structure Admits (s : SourceSet) (u : SourceUnit) : Prop where
  placed : u.Placed
  below : u.id.number < s.nextId
  fresh : ∀ v ∈ s.units, v.id ≠ u.id

theorem Valid.insert (h : s.Valid) {u : SourceUnit} (hu : s.Admits u) : (s.insert u).1.Valid := by
  have hindex : (s.insert u).1.index = (enter s.index u.classes).1 := rfl
  refine ⟨fun v hv => ?_, fun name id hid => ?_⟩
  · rcases List.mem_append.mp hv with hv | hv
    · exact h.below v hv
    · rw [List.mem_singleton.mp hv]
      exact hu.below
  · rw [hindex, find?_enter] at hid
    cases hold : s.index.find? name with
    | some old =>
      -- A name that was there before keeps its class.
      obtain ⟨c, hc⟩ := Option.isSome_iff_exists.mp (h.known name old hold)
      rw [(grows_insert s u).class? hc]
      rfl
    | none =>
      rw [hold, Option.none_or] at hid
      obtain ⟨c, hc, hcid⟩ := List.exists_of_findSome?_eq_some hid
      rw [Option.ite_none_right_eq_some] at hcid
      obtain ⟨cid, hcid', hsource, hclass⟩ := hu.placed.class?_of_mem hc
      obtain rfl : cid = id := Option.some.inj (hcid'.symm.trans hcid.2)
      have hunit : (s.insert u).1.unit? cid.source = some u := by
        have hmiss : (s.units.find? fun v => v.id = u.id) = none := by
          simpa using hu.fresh
        simp [SourceSet.unit?, SourceSet.insert, List.find?_append, hsource, hmiss]
      have hnew : (s.insert u).1.index.find? name = some cid := by
        rw [hindex, find?_enter, hold, Option.none_or, hid]
      rw [class?_eq_some_iff.mpr ⟨cid, u, hnew, hunit, hclass⟩]
      rfl

/-- A unit read under the next id may be added. -/
theorem Valid.admits_next (h : s.Valid) {u : SourceUnit} (hid : u.id = s.reserveId.1)
    (hplaced : u.Placed) : s.reserveId.2.Admits u := by
  refine ⟨hplaced, ?_, fun v hv heq => ?_⟩
  · rw [hid]
    exact Nat.lt_succ_self _
  · have hlt := h.below v hv
    rw [heq, hid] at hlt
    exact Nat.lt_irrefl _ hlt

end SourceSet

end JavaModel
