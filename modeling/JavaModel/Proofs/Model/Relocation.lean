import Mathlib.Logic.Equiv.Basic
import JavaModel.Proofs.Model.Renaming

/-! Texts in other places. The path of a unit goes nowhere but into the unit itself. So a text read
from another path and under another id is malformed as it was or declares the same classes, each at
its place and with its name. -/

namespace JavaModel

namespace Assembly

/-- The assembly of the unit at another path. -/
def relocate (path : FilePath) (a : Assembly) : Assembly :=
  { a with unit := { a.unit with path } }

variable (path : FilePath)

theorem addField_relocate (a : Assembly) (f : Written.Field) :
    (a.relocate path).addField f = (a.addField f).relocate path := by
  obtain houtside | ⟨i, owner, hopened, howner⟩ := a.current_cases
  · have houtside' : (a.relocate path).current? = none := houtside
    rw [addField_outside houtside, addField_outside houtside']
    rfl
  · have hopened' : (a.relocate path).stack.head? = some i := hopened
    have howner' : (a.relocate path).current? = some owner := howner
    rw [addField_eq hopened howner, addField_eq hopened' howner']
    rfl

theorem addMethod_relocate (a : Assembly) (m : Written.Method) :
    (a.relocate path).addMethod m = (a.addMethod m).relocate path := by
  obtain houtside | ⟨i, owner, hopened, howner⟩ := a.current_cases
  · have houtside' : (a.relocate path).current? = none := houtside
    rw [addMethod_outside houtside, addMethod_outside houtside']
    rfl
  · have hopened' : (a.relocate path).stack.head? = some i := hopened
    have howner' : (a.relocate path).current? = some owner := howner
    rw [addMethod_eq hopened howner, addMethod_eq hopened' howner']
    rfl

theorem step_relocate (a : Assembly) (e : Event) :
    (a.relocate path).step e = (a.step e).relocate path := by
  cases e with
  | beginClass c =>
    simp only [step, beginClass, relocate]
    cases a.stack.head? <;> rfl
  | beginField f => exact addField_relocate path a f
  | beginMethod m => exact addMethod_relocate path a m
  | _ => rfl

end Assembly

namespace SourceUnit

theorem ofEvents_relocate (id : UnitId) (p q : FilePath) (es : List Event) :
    ofEvents id q es = { ofEvents id p es with path := q } := by
  have hfoldl : es.foldl Assembly.step ((Assembly.start id p).relocate q) =
      (es.foldl Assembly.step (Assembly.start id p)).relocate q :=
    List.foldl_hom (Assembly.relocate q) (Assembly.step_relocate q)
  exact congrArg Assembly.unit hfoldl

/-- A text at another path gives the same unit but for the path. -/
theorem ofText_relocate {id : UnitId} {p : FilePath} {text : String} {u : SourceUnit}
    (h : ofText id p text = .ok u) (q : FilePath) :
    ofText id q text = .ok { u with path := q } := by
  unfold ofText at h ⊢
  dsimp only at h ⊢
  split at h
  · cases h
  · cases h
    rw [ofEvents_relocate id p q]

/-- Anywhere else a text gives the same unit but for the path and the id. -/
theorem ofText_moved {id : UnitId} {p : FilePath} {text : String} {u : SourceUnit}
    (h : ofText id p text = .ok u) (id' : UnitId) (q : FilePath) :
    ∃ ρ : Renaming, ofText id' q text = .ok (({ u with path := q } : SourceUnit).rename ρ) := by
  let ρ : Renaming := (Equiv.swap id id').toEmbedding
  have hid : ρ id = id' := Equiv.swap_apply_left id id'
  have hunit := ofText_rename ρ id q text
  rw [hid, ofText_relocate h q] at hunit
  exact ⟨ρ, hunit⟩

/-- Anywhere else a text declares the same names at the same places. -/
theorem ofText_elsewhere {id : UnitId} {p : FilePath} {text : String} {u : SourceUnit}
    (h : ofText id p text = .ok u) (id' : UnitId) (q : FilePath) :
    ∃ v, ofText id' q text = .ok v ∧
      ∀ i, (v.classAt? i).map (·.fullName) = (u.classAt? i).map (·.fullName) := by
  obtain ⟨ρ, hunit⟩ := ofText_moved h id' q
  refine ⟨_, hunit, fun i => ?_⟩
  rw [classAt?_rename, Option.map_map]
  rfl

theorem exists_class_elsewhere {id id' : UnitId} {p q : FilePath} {text name : String}
    {u v : SourceUnit} (hu : ofText id p text = .ok u) (hv : ofText id' q text = .ok v)
    (h : ∃ c ∈ u.classes, c.fullName = name) : ∃ c ∈ v.classes, c.fullName = name := by
  obtain ⟨c, hc, hname⟩ := h
  obtain ⟨w, hw, hnames⟩ := ofText_elsewhere hu id' q
  obtain rfl : v = w := Except.ok.inj (hv.symm.trans hw)
  obtain ⟨n, hn⟩ := List.mem_iff_getElem?.mp hc
  have hat := hnames ⟨n⟩
  rw [show u.classAt? ⟨n⟩ = some c from hn, Option.map_some, Option.map_eq_some_iff] at hat
  obtain ⟨d, hd, hsame⟩ := hat
  exact ⟨d, List.mem_of_getElem? hd, hsame.trans hname⟩

end SourceUnit

end JavaModel
