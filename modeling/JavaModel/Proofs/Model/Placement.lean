import JavaModel.SourceError

/-! The places of a unit's classes. Whatever the events, a class of an assembled unit carries the id
of its unit and its own place in declaration order, so that an id leads back to its class. And the
unit keeps the path under which it was read. -/

namespace JavaModel

namespace SourceUnit

/-- Every class carries the id of the unit and the place where it stands. -/
def Placed (u : SourceUnit) : Prop :=
  ∀ (i : Nat) (c : Class), u.classes[i]? = some c → c.origin = .declared ⟨u.id, ⟨i⟩⟩

/-- The id of a class leads to the class. -/
theorem Placed.class?_of_mem {u : SourceUnit} (h : u.Placed) {c : Class} (hc : c ∈ u.classes) :
    ∃ id, c.id? = some id ∧ id.source = u.id ∧ u.class? id = some c := by
  obtain ⟨i, hi⟩ := List.mem_iff_getElem?.mp hc
  have horigin := h i c hi
  refine ⟨⟨u.id, ⟨i⟩⟩, ?_, rfl, ?_⟩
  · simp [Class.id?, horigin]
  · simp [class?, classAt?, hi]

end SourceUnit

namespace Assembly

/-- The assembly is one of a unit with the id, and its classes are placed. -/
def Places (id : UnitId) (a : Assembly) : Prop := a.unit.id = id ∧ a.unit.Placed

theorem referClass_origin (s : Scope) (id : ClassId) (enclosing : Option ClassIndex)
    (fullName : String) (package doc : Option String) (c : Written.Class) (n : Nat) :
    ((referClass s id enclosing fullName package doc c).run n).1.origin = .declared id := rfl

/-- A change that leaves the origins of classes alone leaves them placed. -/
theorem placed_modifyClass {u : SourceUnit} (h : u.Placed) (i : ClassIndex) {f : Class → Class}
    (hf : ∀ c, (f c).origin = c.origin) : (modifyClass u i f).Placed := by
  intro j c hc
  simp only [modifyClass, List.getElem?_modify] at hc
  obtain ⟨before, hbefore, hc⟩ := Option.map_eq_some_iff.mp hc
  have horigin : c.origin = before.origin := by
    rw [← hc]
    split
    · exact hf before
    · rfl
  rw [horigin]
  exact h j before hbefore

/-- A class placed behind the others. -/
theorem placed_append {u : SourceUnit} (h : u.Placed) {c : Class}
    (hc : c.origin = .declared ⟨u.id, ⟨u.classes.length⟩⟩) :
    ({ u with classes := u.classes ++ [c] } : SourceUnit).Placed := by
  intro i d hd
  simp only [List.getElem?_append] at hd
  split at hd
  · exact h i d hd
  · rename_i hi
    obtain ⟨hzero, rfl⟩ : i - u.classes.length = 0 ∧ c = d := by
      simpa [List.getElem?_singleton] using hd
    obtain rfl : i = u.classes.length := by omega
    exact hc

theorem places_start (id : UnitId) (path : FilePath) : Places id (start id path) :=
  ⟨rfl, fun i c hc => by simp [start] at hc⟩

variable {id : UnitId} {a : Assembly}

theorem places_beginClass (h : Places id a) (c : Written.Class) : Places id (a.beginClass c) := by
  obtain ⟨hid, hplaced⟩ := h
  unfold beginClass
  cases a.stack.head? with
  | none => exact ⟨hid, placed_append hplaced (referClass_origin _ _ _ _ _ _ c _)⟩
  | some outer =>
    refine ⟨hid, placed_modifyClass (placed_append hplaced ?_) outer fun _ => rfl⟩
    exact referClass_origin _ _ _ _ _ _ c _

theorem places_addField (h : Places id a) (f : Written.Field) : Places id (a.addField f) := by
  unfold addField
  dsimp only
  split
  · exact ⟨h.1, placed_modifyClass h.2 _ fun _ => rfl⟩
  · exact h

theorem places_addMethod (h : Places id a) (m : Written.Method) : Places id (a.addMethod m) := by
  unfold addMethod
  dsimp only
  split
  · refine ⟨h.1, placed_modifyClass h.2 _ fun c => ?_⟩
    exact (apply_ite Class.origin _ _ _).trans (ite_self _)
  · exact h

theorem places_step (h : Places id a) (e : Event) : Places id (a.step e) := by
  cases e with
  | beginClass c => exact places_beginClass h c
  | beginField f => exact places_addField h f
  | beginMethod m => exact places_addMethod h m
  | package _ => exact ⟨h.1, h.2⟩
  | imports _ => exact ⟨h.1, h.2⟩
  | _ => exact h

theorem places_foldl (h : Places id a) (es : List Event) : Places id (es.foldl step a) := by
  induction es generalizing a with
  | nil => exact h
  | cons e es ih => exact ih (places_step h e)

theorem path_step (a : Assembly) (e : Event) : (a.step e).unit.path = a.unit.path := by
  cases e with
  | beginClass c =>
    simp only [step, beginClass]
    cases a.stack.head? <;> rfl
  | beginField f =>
    simp only [step, addField]
    split <;> rfl
  | beginMethod m =>
    simp only [step, addMethod]
    split <;> rfl
  | _ => rfl

theorem path_foldl (a : Assembly) (es : List Event) :
    (es.foldl step a).unit.path = a.unit.path := by
  induction es generalizing a with
  | nil => rfl
  | cons e es ih => exact (ih (a.step e)).trans (path_step a e)

end Assembly

namespace SourceUnit

theorem ofEvents_places (id : UnitId) (path : FilePath) (es : List Event) :
    (ofEvents id path es).id = id ∧ (ofEvents id path es).Placed :=
  Assembly.places_foldl (Assembly.places_start id path) es

/-- A unit that was read has the id it was read under, and its classes are placed. -/
theorem ofText_places {id : UnitId} {path : FilePath} {text : String} {u : SourceUnit}
    (h : ofText id path text = .ok u) : u.id = id ∧ u.Placed := by
  unfold ofText at h
  dsimp only at h
  split at h
  · cases h
  · cases h
    exact ofEvents_places _ _ _

/-- A unit that was read has the path it was read under. -/
theorem path_ofText {id : UnitId} {path : FilePath} {text : String} {u : SourceUnit}
    (h : ofText id path text = .ok u) : u.path = path := by
  unfold ofText at h
  dsimp only at h
  split at h
  · cases h
  · cases h
    exact Assembly.path_foldl (Assembly.start id path) _

theorem ofBytes_places {id : UnitId} {path : FilePath} {bytes : ByteArray} {u : SourceUnit}
    (h : ofBytes id path bytes = .ok u) : u.id = id ∧ u.Placed := by
  unfold ofBytes at h
  split at h
  · exact ofText_places h
  · cases h

theorem ofReader_places {id : UnitId} {path : FilePath} {given : Except ReadFault ByteArray}
    {u : SourceUnit} (h : ofReader id path given = .ok u) : u.id = id ∧ u.Placed := by
  cases given with
  | error fault => cases h
  | ok bytes => exact ofBytes_places h

end SourceUnit

end JavaModel
