import JavaModel.Library.Strategy
import JavaModel.Proofs.SourceSet

/-! Source roots at work. A search only adds units and only tries further files, keeps a valid
source set valid, and leaves no file for a name untried unless it makes the name known. -/

namespace JavaModel

/-- The files that may declare a class, each with its locator, in the order in which source roots
try them. -/
def Locator.filesFor (locators : List Locator) (tree : FileTree) (name : String) :
    List (Locator × FilePath) :=
  locators.flatMap fun l => (l.candidates tree name).map fun p => (l, p)

namespace Loading

variable {l l' : Loading} {tree : FileTree} {locator : Locator} {p : FilePath}

/-- What loading does to a valid source set and to the files tried. -/
structure Leads (l l' : Loading) : Prop where
  grows : l.sources.Grows l'.sources
  valid : l.sources.Valid → l'.sources.Valid
  attempted : l.attempted ⊆ l'.attempted

theorem Leads.refl (l : Loading) : l.Leads l :=
  ⟨.refl _, id, List.Subset.refl _⟩

theorem Leads.trans {k : Loading} (h : k.Leads l) (h' : l.Leads l') : k.Leads l' :=
  ⟨h.grows.trans h'.grows, h'.valid ∘ h.valid, List.Subset.trans h.attempted h'.attempted⟩

theorem attempted_attempt (l : Loading) (tree : FileTree) (locator : Locator) (p : FilePath) :
    (l.attempt tree locator p).1.attempted = l.attempted ++ [p.components] := by
  unfold attempt
  dsimp only
  split
  · rfl
  · split <;> rfl

theorem attempt_leads (l : Loading) (tree : FileTree) (locator : Locator) (p : FilePath) :
    l.Leads (l.attempt tree locator p).1 := by
  have hattempted : l.attempted ⊆ (l.attempt tree locator p).1.attempted := by
    rw [attempted_attempt]
    exact List.subset_append_left _ _
  unfold attempt at hattempted ⊢
  dsimp only at hattempted ⊢
  split at hattempted
  · exact ⟨.refl _, id, hattempted⟩
  · have hreserve : l.sources.Grows l.sources.reserveId.2 := SourceSet.grows_reserveId _
    split
    · exact ⟨hreserve, fun h => h.reserve (Nat.le_succ _), by simp⟩
    · rename_i unit hread
      obtain ⟨hid, hplaced⟩ := SourceUnit.ofText_places hread
      refine ⟨hreserve.trans (SourceSet.grows_insert _ _), fun h => ?_, by simp⟩
      exact (h.reserve (Nat.le_succ _)).insert (h.admits_next hid hplaced)

theorem search_leads (tree : FileTree) (name : String) (files : List (Locator × FilePath))
    (l : Loading) : l.Leads (search tree name files l) := by
  induction files generalizing l with
  | nil => exact .refl l
  | cons f files ih =>
    obtain ⟨locator, p⟩ := f
    unfold search
    split
    · exact ih l
    · have hattempt := attempt_leads l tree locator p
      dsimp only
      split
      · exact hattempt
      · exact hattempt.trans (ih _)

/-- A search that does not make the name known has tried every file. -/
theorem attempted_of_search {name : String} {files : List (Locator × FilePath)}
    (h : (search tree name files l).sources.contains name = false) :
    ∀ f ∈ files, f.2.components ∈ (search tree name files l).attempted := by
  induction files generalizing l with
  | nil => simp
  | cons f files ih =>
    obtain ⟨locator, p⟩ := f
    unfold search at h ⊢
    split at h
    · rename_i hdone
      rw [if_pos hdone]
      refine List.forall_mem_cons.mpr ⟨?_, ih h⟩
      exact (search_leads tree name files l).attempted (List.contains_iff_mem.mp hdone)
    · rename_i hnew
      rw [if_neg hnew]
      dsimp only at h ⊢
      split at h
      · rename_i hfound
        rw [Bool.and_eq_true] at hfound
        rw [hfound.2] at h
        cases h
      · rename_i hmissed
        rw [if_neg hmissed]
        refine List.forall_mem_cons.mpr ⟨?_, ih h⟩
        refine (search_leads tree name files _).attempted ?_
        rw [attempted_attempt]
        simp

/-- A search with every file tried before does nothing. -/
theorem search_of_attempted {name : String} {files : List (Locator × FilePath)}
    (h : ∀ f ∈ files, f.2.components ∈ l.attempted) : search tree name files l = l := by
  induction files with
  | nil => rfl
  | cons f files ih =>
    obtain ⟨hf, hfiles⟩ := List.forall_mem_cons.mp h
    unfold search
    rw [if_pos (List.contains_iff_mem.mpr hf)]
    exact ih hfiles

/-! ### Units found -/

section

variable {P : SourceUnit → Prop}
  (hread : ∀ {id path text u}, SourceUnit.ofText id path text = .ok u → P u)

include hread

/-- What holds of every unit that is read holds of all units if it held of those before. -/
theorem units_attempt (h : ∀ u ∈ l.sources.units, P u) (tree : FileTree) (locator : Locator)
    (p : FilePath) : ∀ u ∈ (l.attempt tree locator p).1.sources.units, P u := by
  unfold attempt
  dsimp only
  split
  · exact h
  · split
    · exact h
    · rename_i unit hunit
      intro u hu
      rcases List.mem_append.mp hu with hu | hu
      · exact h u hu
      · exact List.mem_singleton.mp hu ▸ hread hunit

theorem units_search (h : ∀ u ∈ l.sources.units, P u) (tree : FileTree) (name : String)
    (files : List (Locator × FilePath)) :
    ∀ u ∈ (search tree name files l).sources.units, P u := by
  induction files generalizing l with
  | nil => exact h
  | cons f files ih =>
    obtain ⟨locator, p⟩ := f
    unfold search
    split
    · exact ih h
    · dsimp only
      split
      · exact units_attempt hread h tree locator p
      · exact ih (units_attempt hread h tree locator p)

end

end Loading

end JavaModel
