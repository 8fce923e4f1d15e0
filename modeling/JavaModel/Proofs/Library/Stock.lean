import JavaModel.Proofs.FileTree
import JavaModel.Proofs.Library.Naming
import JavaModel.Proofs.Library.Stub
import JavaModel.Proofs.Model.Relocation

/-! Where the classes of a library come from. Every class that a library can ever find is made up or
goes by a name that a unit of the session, a registry or a text that a locator can read has for a
class. If the registries know finitely many classes, there are finitely many such names. -/

namespace JavaModel

/-- The full names of the classes of a unit. -/
def SourceUnit.classNames (u : SourceUnit) : List String := u.classes.map (·.fullName)

/-- The full names of the classes that a text declares; a malformed text declares none. -/
def textNames (text : String) : List String :=
  match SourceUnit.ofText ⟨0⟩ ⟨""⟩ text with
  | .ok u => u.classNames
  | .error _ => []

/-- The full names of the classes that bytes declare. -/
def bytesNames (bytes : ByteArray) : List String :=
  match String.fromUTF8? bytes with
  | some text => textNames text
  | none => []

/-- The full names of all classes that a locator can read. -/
def Locator.classNames (tree : FileTree) : Locator → List String
  | .directory _ _ => tree.files.flatMap fun f => bytesNames f.2
  | .memory files => files.files.flatMap fun f => textNames f.2

namespace Strategy

/-- A registry among the strategies is finite. -/
def IsFinite : Strategy → Prop
  | registry r => r.IsFinite
  | _ => True

/-- The full names of all classes that a strategy knows itself are among those listed. -/
def Stocked (all : List String) (tree : FileTree) : Strategy → Prop
  | parsedSources | stub => True
  | registry r => ∀ name, (r.find? name).isSome → name ∈ all
  | sourceRoots locators => ∀ l ∈ locators, l.classNames tree ⊆ all

variable {all more : List String} {tree : FileTree} {strategy : Strategy}

theorem Stocked.mono (h : strategy.Stocked all tree) (hmore : all ⊆ more) :
    strategy.Stocked more tree := by
  cases strategy with
  | parsedSources | stub => trivial
  | registry r => exact fun name hname => hmore (h name hname)
  | sourceRoots locators => exact fun l hl => List.Subset.trans (h l hl) hmore

/-- What a strategy knows itself can be listed, if a registry is finite. -/
theorem IsFinite.exists_stock (h : strategy.IsFinite) (tree : FileTree) :
    ∃ all, strategy.Stocked all tree := by
  cases strategy with
  | parsedSources | stub => exact ⟨[], trivial⟩
  | registry r => exact h
  | sourceRoots locators =>
    refine ⟨locators.flatMap (Locator.classNames tree), fun l hl name hname => ?_⟩
    exact List.mem_flatMap.mpr ⟨l, hl, hname⟩

/-- What several strategies know themselves can be listed together. -/
theorem exists_stock {strategies : List Strategy} (h : ∀ x ∈ strategies, x.IsFinite)
    (tree : FileTree) : ∃ all, ∀ x ∈ strategies, x.Stocked all tree := by
  induction strategies with
  | nil => exact ⟨[], by simp⟩
  | cons x xs ih =>
    obtain ⟨hx, hxs⟩ := List.forall_mem_cons.mp h
    obtain ⟨all, hall⟩ := hx.exists_stock tree
    obtain ⟨more, hmore⟩ := ih hxs
    refine ⟨all ++ more, List.forall_mem_cons.mpr ⟨?_, fun y hy => ?_⟩⟩
    · exact hall.mono (List.subset_append_left _ _)
    · exact (hmore y hy).mono (List.subset_append_right _ _)

end Strategy

/-! ### Units read -/

/-- Wherever a text is read, its classes have the same full names. -/
theorem textNames_eq {id : UnitId} {path : FilePath} {text : String} {u : SourceUnit}
    (h : SourceUnit.ofText id path text = .ok u) : textNames text = u.classNames := by
  obtain ⟨ρ, hmoved⟩ := SourceUnit.ofText_moved h ⟨0⟩ ⟨""⟩
  rw [textNames, hmoved]
  dsimp only
  rw [SourceUnit.classNames, SourceUnit.classNames, SourceUnit.classes_rename, List.map_map]
  exact List.map_congr_left fun c _ => Class.fullName_rename ..

/-- What a locator reads declares classes of names that the locator has. -/
theorem Locator.textNames_subset {l : Locator} {tree : FileTree} {p : FilePath} {text : String}
    (h : l.read tree p = .ok text) : textNames text ⊆ l.classNames tree := by
  cases l with
  | directory root extension =>
    obtain ⟨place, bytes, _, hbytes, htext⟩ := FileTree.exists_bytes_of_read h
    obtain ⟨f, hf, rfl⟩ := Option.map_eq_some_iff.mp hbytes
    intro x hx
    refine List.mem_flatMap.mpr ⟨f, List.mem_of_find?_eq_some hf, ?_⟩
    rwa [bytesNames, htext]
  | memory files =>
    unfold Locator.read at h
    dsimp only at h
    split at h
    · rename_i found hfound
      obtain ⟨f, hf, rfl⟩ := Option.map_eq_some_iff.mp hfound
      cases h
      exact fun x hx => List.mem_flatMap.mpr ⟨f, List.mem_of_find?_eq_some hf, hx⟩
    · cases h

/-- The full names of the classes of all units are among those listed. -/
def SourceSet.Stocked (all : List String) (sources : SourceSet) : Prop :=
  ∀ u ∈ sources.units, u.classNames ⊆ all

variable {all : List String} {tree : FileTree} {sources : SourceSet}

theorem stocked_attempt {l : Loading} {locator : Locator} (h : l.sources.Stocked all)
    (hlocator : locator.classNames tree ⊆ all) (p : FilePath) :
    (l.attempt tree locator p).1.sources.Stocked all := by
  unfold Loading.attempt
  dsimp only
  split
  · exact h
  · rename_i text hread
    split
    · exact h
    · rename_i unit hunit
      intro u hu
      rcases List.mem_append.mp hu with hu | hu
      · exact h u hu
      · obtain rfl := List.mem_singleton.mp hu
        rw [← textNames_eq hunit]
        exact List.Subset.trans (Locator.textNames_subset hread) hlocator

theorem stocked_search {l : Loading} (h : l.sources.Stocked all) (name : String)
    {files : List (Locator × FilePath)} (hfiles : ∀ f ∈ files, f.1.classNames tree ⊆ all) :
    (Loading.search tree name files l).sources.Stocked all := by
  induction files generalizing l with
  | nil => exact h
  | cons f files ih =>
    obtain ⟨locator, p⟩ := f
    obtain ⟨hlocator, hfiles⟩ := List.forall_mem_cons.mp hfiles
    unfold Loading.search
    split
    · exact ih h hfiles
    · dsimp only
      split
      · exact stocked_attempt h hlocator p
      · exact ih (stocked_attempt h hlocator p) hfiles

/-- Units that a strategy reads declare classes of names that are listed. -/
theorem ChainEntry.stocked_ask {e : ChainEntry} (h : sources.Stocked all)
    (he : e.strategy.Stocked all tree) (name : String) :
    (e.ask tree sources name).2.2.Stocked all := by
  cases hstrategy : e.strategy with
  | parsedSources => rwa [ask_parsedSources hstrategy]
  | registry r => rwa [ask_registry hstrategy]
  | sourceRoots locators =>
    rw [ask_sourceRoots hstrategy]
    refine stocked_search h name fun f hf => ?_
    obtain ⟨l, hl, hp⟩ := List.mem_flatMap.mp hf
    obtain ⟨p, _, rfl⟩ := List.mem_map.mp hp
    rw [hstrategy] at he
    exact he l hl
  | stub => rwa [ask_stub hstrategy]

/-- A class that a strategy finds is made up, or its full name is listed. -/
theorem Strategy.Finds.stocked {strategy : Strategy} {name : String} {c : Class}
    (h : strategy.Finds sources name c) (hfilled : sources.IsFilled) (hsources : sources.Stocked all)
    (hstrategy : strategy.Stocked all tree) : c.IsStub ∨ c.fullName ∈ all := by
  cases strategy with
  | parsedSources | sourceRoots locators =>
    obtain ⟨u, hu, hc⟩ := List.mem_flatMap.mp (hfilled.class?_spec h).2
    exact .inr (hsources u hu (List.mem_map_of_mem hc))
  | registry r =>
    obtain ⟨shape, hshape, rfl⟩ := Option.map_eq_some_iff.mp h
    refine .inr ?_
    rw [show shape.toClass.fullName = name from r.named name shape hshape]
    exact hstrategy name (Option.isSome_iff_exists.mpr ⟨shape, hshape⟩)
  | stub => exact .inl ⟨name, h.2⟩

end JavaModel
