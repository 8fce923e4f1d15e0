import JavaModel.Proofs.Model.Renaming
import JavaModel.Proofs.SourceSet

/-! Source sets whose units are the same but for their ids. Whatever is added to both, they stay so:
the same classes count under each name and the same duplicates are reported, since nothing in a set
depends on an id but by asking whether it is another one. -/

namespace JavaModel

variable {ρ : Renaming} {ordered : Prop}

namespace SourceSet

variable {s t : SourceSet}

/-- The second set has the units of the first under other ids, and if `ordered` in the same order.
The ids that they give out next are paired as well. -/
structure Alike (ρ : Renaming) (ordered : Prop) (s t : SourceSet) : Prop where
  units : t.units.Perm (s.units.map (SourceUnit.rename ρ))
  inOrder : ordered → t.units = s.units.map (SourceUnit.rename ρ)
  unit? : ∀ id, t.unit? (ρ id) = (s.unit? id).map (SourceUnit.rename ρ)
  index : ∀ name, t.classId? name = (s.classId? name).map (ClassId.rename ρ)
  nextId : ∀ n, ρ ⟨s.nextId + n⟩ = ⟨t.nextId + n⟩

theorem Alike.refl (s : SourceSet) : s.Alike (.refl UnitId) True s := by
  refine ⟨?_, fun _ => ?_, fun id => ?_, fun name => ?_, fun n => rfl⟩
  · simp
  · simp
  · simp
  · simp [ClassId.rename_refl]

theorem Alike.contains (h : s.Alike ρ ordered t) (name : String) :
    t.contains name = s.contains name := by
  have hindex := congrArg Option.isSome (h.index name)
  rwa [Option.isSome_map] at hindex

theorem Alike.class? (h : s.Alike ρ ordered t) (name : String) :
    t.class? name = (s.class? name).map (Class.rename ρ) := by
  unfold SourceSet.class?
  rw [h.index]
  cases s.classId? name with
  | none => rfl
  | some id =>
    change (t.unit? (ρ id.source)).bind (·.class? (id.rename ρ)) =
      ((s.unit? id.source).bind (·.class? id)).map (Class.rename ρ)
    rw [h.unit?]
    cases s.unit? id.source with
    | none => rfl
    | some u => exact SourceUnit.class?_rename ρ u id

/-! ### Growth -/

theorem Alike.reserve (h : s.Alike ρ ordered t) (n : Nat) :
    Alike ρ ordered { s with nextId := s.nextId + n } { t with nextId := t.nextId + n } := by
  refine ⟨h.units, h.inOrder, h.unit?, h.index, fun m => ?_⟩
  have hnext := h.nextId (n + m)
  rwa [← Nat.add_assoc, ← Nat.add_assoc] at hnext

theorem Alike.reserveId (h : s.Alike ρ ordered t) :
    t.reserveId.1 = ρ s.reserveId.1 ∧ s.reserveId.2.Alike ρ ordered t.reserveId.2 :=
  ⟨(h.nextId 0).symm, h.reserve 1⟩

/-- Classes entered into indexes that pair the names alike. -/
theorem enter_rename {index index' : Table String ClassId}
    (h : ∀ name, index'.find? name = (index.find? name).map (ClassId.rename ρ)) (cs : List Class) :
    (∀ name, (enter index' (cs.map (Class.rename ρ))).1.find? name =
        ((enter index cs).1.find? name).map (ClassId.rename ρ)) ∧
      (enter index' (cs.map (Class.rename ρ))).2 = (enter index cs).2 := by
  induction cs generalizing index index' with
  | nil => exact ⟨h, rfl⟩
  | cons c cs ih =>
    simp only [List.map_cons, enter, Class.id?_rename, Class.fullName_rename, h]
    cases c.id? with
    | none => exact ih h
    | some id =>
      cases hfirst : index.find? c.fullName with
      | some first =>
        obtain ⟨hindex, hduplicates⟩ := ih h
        refine ⟨hindex, ?_⟩
        simp only [Option.map_some, ClassId.rename_inj, hduplicates]
      | none =>
        refine ih fun name => ?_
        rw [Table.find?_record, Table.find?_record, h]
        by_cases hname : c.fullName = name
        · cases index.find? name <;> simp [hname]
        · simp [hname]

/-- A unit added to both sets, to the second under its other id. -/
theorem Alike.insert (h : s.Alike ρ ordered t) (u : SourceUnit) :
    (s.insert u).1.Alike ρ ordered (t.insert (u.rename ρ)).1 ∧
      (t.insert (u.rename ρ)).2 = (s.insert u).2 := by
  obtain ⟨hindex, hduplicates⟩ := enter_rename h.index u.classes
  have hunits : (s.insert u).1.units.map (SourceUnit.rename ρ) =
      s.units.map (SourceUnit.rename ρ) ++ [u.rename ρ] := List.map_append ..
  refine ⟨⟨?_, fun hordered => ?_, fun id => ?_, hindex, h.nextId⟩, hduplicates⟩
  · rw [hunits]
    exact h.units.append_right _
  · rw [hunits, ← h.inOrder hordered]
    rfl
  · have hfind := h.unit? id
    unfold SourceSet.unit? at hfind ⊢
    change (t.units ++ [u.rename ρ]).find? _ = ((s.units ++ [u]).find? _).map _
    rw [List.find?_append, List.find?_append, hfind]
    cases s.units.find? fun v => v.id = id with
    | some v => rfl
    | none => by_cases hid : u.id = id <;> simp [hid]

/-! ### Listings -/

theorem Alike.isIndexed (h : s.Alike ρ ordered t) (c : Class) :
    t.isIndexed (c.rename ρ) = s.isIndexed c := by
  unfold SourceSet.isIndexed
  rw [Class.id?_rename]
  cases c.id? with
  | none => rfl
  | some id =>
    simp only [Option.map_some, Class.fullName_rename, h.index]
    cases s.classId? c.fullName <;> simp

theorem Alike.classes (h : s.Alike ρ ordered t) (hordered : ordered) :
    t.classes = s.classes.map (Class.rename ρ) := by
  have hindexed : t.isIndexed ∘ Class.rename ρ = s.isIndexed := funext h.isIndexed
  unfold SourceSet.classes
  simp only [h.inOrder hordered, List.flatMap_map, List.map_flatMap, SourceUnit.classes_rename,
    List.filter_map, hindexed]

theorem Alike.packages (h : s.Alike ρ ordered t) (hordered : ordered) :
    t.packages = s.packages := by
  unfold SourceSet.packages
  rw [h.inOrder hordered, List.filterMap_map]
  rfl

end SourceSet

end JavaModel
