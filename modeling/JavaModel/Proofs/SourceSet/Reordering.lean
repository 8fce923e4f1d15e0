import JavaModel.Proofs.SourceSet.Filling
import JavaModel.Proofs.SourceSet.Renaming

/-! Source sets with the same units in different orders. If no two classes have one full name, what
is found under a name or an id does not tell in which order the units were added. -/

namespace JavaModel

/-- What is found under a key is found in any order, and after any change that keeps keys apart. -/
theorem find?_perm_map {α β κ κ' : Type} [DecidableEq κ] [DecidableEq κ'] {f : α → β} {g : κ → κ'}
    (hg : g.Injective) {key : α → κ} {key' : β → κ'} (hkey : ∀ a, key' (f a) = g (key a))
    {as : List α} {bs : List β} (hperm : bs.Perm (as.map f)) (h : (as.map key).Nodup) (k : κ) :
    (bs.find? fun b => key' b = g k) = (as.find? fun a => key a = k).map f := by
  have hkeys : (as.map f).map key' = (as.map key).map g := by
    rw [List.map_map, List.map_map]
    exact List.map_congr_left fun a _ => hkey a
  have hnodup : (bs.map key').Nodup := by
    rw [(hperm.map key').nodup_iff, hkeys]
    exact h.map hg
  cases hfind : as.find? fun a => key a = k with
  | some a =>
    obtain ⟨ha, rfl⟩ := (find?_key h).mp hfind
    exact (find?_key hnodup).mpr ⟨hperm.mem_iff.mpr (List.mem_map_of_mem ha), hkey a⟩
  | none =>
    refine List.find?_eq_none.mpr fun b hb hbk => ?_
    obtain ⟨a, ha, rfl⟩ := List.mem_map.mp (hperm.mem_iff.mp hb)
    have hak : key a = k := hg ((hkey a).symm.trans (of_decide_eq_true hbk))
    exact List.find?_eq_none.mp hfind a ha (decide_eq_true hak)

variable {ρ : Renaming} {s t : SourceSet}

theorem declared_perm (h : t.units.Perm (s.units.map (SourceUnit.rename ρ))) :
    t.declared.Perm (s.declared.map (Class.rename ρ)) := by
  have hclasses : (s.units.map (SourceUnit.rename ρ)).flatMap (·.classes) =
      s.declared.map (Class.rename ρ) := by
    simp only [SourceSet.declared, List.flatMap_map, List.map_flatMap, SourceUnit.classes_rename]
  exact (h.flatMap_right (·.classes)).trans (.of_eq hclasses)

/-- Sets with the same units are alike whatever the order, if no two classes have one name. -/
theorem SourceSet.Consistent.alike (hs : s.Consistent) (ht : t.Consistent)
    (hunits : t.units.Perm (s.units.map (SourceUnit.rename ρ)))
    (hnames : (s.declared.map (·.fullName)).Nodup)
    (hnext : ∀ n, ρ ⟨s.nextId + n⟩ = ⟨t.nextId + n⟩) :
    s.Alike ρ False t := by
  have hid (u : SourceUnit) : (u.rename ρ).id = ρ u.id := rfl
  have hfirst (name : String) :
      t.first? name = (s.first? name).map (Class.rename ρ) :=
    find?_perm_map Function.injective_id (Class.fullName_rename ρ) (declared_perm hunits) hnames
      name
  refine ⟨hunits, False.elim, ?_, fun name => ?_, hnext⟩
  · exact find?_perm_map ρ.injective hid hunits hs.distinct
  · rw [ht.classId?, hs.classId?, hfirst]
    cases s.first? name with
    | none => rfl
    | some c => exact Class.id?_rename ρ c

end JavaModel
