import JavaModel.Proofs.Library.Rising
import JavaModel.Proofs.Model.Relocation

/-! Misses of a strategy over time. Source roots that have searched for a name in vain find no file
that declares it later on either: each of its files has been tried by then, or is read as it was the
first time. So what they answer later is what the units of the session declare later. -/

namespace JavaModel

namespace SourceSet

variable {s : SourceSet} {u : SourceUnit} {name : String}

/-- A name is known behind a unit if it was known before or a class of the unit has it. -/
theorem contains_insert_iff (hu : u.Placed) (s : SourceSet) (name : String) :
    (s.insert u).1.contains name ↔ s.contains name ∨ ∃ c ∈ u.classes, c.fullName = name := by
  have hindex : (s.insert u).1.index = (enter s.index u.classes).1 := rfl
  rw [contains, Table.contains, hindex, find?_enter, Option.isSome_or, Bool.or_eq_true,
    List.findSome?_isSome_iff]
  refine or_congr_right (exists_congr fun c => and_congr_right fun hc => ?_)
  obtain ⟨id, hid, _⟩ := hu.class?_of_mem hc
  by_cases hname : c.fullName = name <;> simp [hname, hid]

end SourceSet

namespace Loading

variable {l l' : Loading} {tree : FileTree} {name : String} {files : List (Locator × FilePath)}

/-- The file can be read, and its unit declares a class of the name. -/
def Declares (tree : FileTree) (f : Locator × FilePath) (name : String) : Prop :=
  ∃ text id u, f.1.read tree f.2 = .ok text ∧ SourceUnit.ofText id f.2 text = .ok u ∧
    ∃ c ∈ u.classes, c.fullName = name

/-- Under every id the file declares the same names. -/
theorem declares_iff {f : Locator × FilePath} {text : String} {id : UnitId} {u : SourceUnit}
    (hread : f.1.read tree f.2 = .ok text) (hu : SourceUnit.ofText id f.2 text = .ok u) :
    Declares tree f name ↔ ∃ c ∈ u.classes, c.fullName = name := by
  refine ⟨?_, fun hc => ⟨text, id, u, hread, hu, hc⟩⟩
  rintro ⟨other, id', v, hread', hv, hc⟩
  cases hread.symm.trans hread'
  exact SourceUnit.exists_class_elsewhere hv hu hc

/-- Trying a file makes known what the file declares, and nothing else. -/
theorem contains_attempt_iff (l : Loading) (tree : FileTree) (f : Locator × FilePath)
    (name : String) : (l.attempt tree f.1 f.2).1.sources.contains name ↔
      l.sources.contains name ∨ Declares tree f name := by
  have hreserve : l.sources.reserveId.2.contains name = l.sources.contains name := rfl
  unfold attempt
  dsimp only
  split
  · rename_i hread
    refine (or_iff_left ?_).symm
    rintro ⟨text, _, _, hread', _⟩
    cases hread.symm.trans hread'
  · rename_i text hread
    split
    · rename_i hu
      rw [hreserve]
      refine (or_iff_left ?_).symm
      rintro ⟨other, id, v, hread', hv, _⟩
      cases hread.symm.trans hread'
      obtain ⟨w, hw, _⟩ := SourceUnit.ofText_elsewhere hv l.sources.reserveId.1 f.2
      cases hu.symm.trans hw
    · rename_i u hu
      rw [SourceSet.contains_insert_iff (SourceUnit.ofText_places hu).2, hreserve,
        declares_iff hread hu]

/-- A file that was tried before is passed over. -/
theorem search_tried {f : Locator × FilePath} (h : f.2.components ∈ l.attempted) :
    search tree name (f :: files) l = search tree name files l := by
  obtain ⟨locator, p⟩ := f
  rw [search, if_pos (List.contains_iff_mem.mpr h)]

/-- A file that was not tried before is tried, and if its unit makes the name known then the search
ends there. -/
theorem search_untried {f : Locator × FilePath} (h : f.2.components ∉ l.attempted) :
    search tree name (f :: files) l = (l.attempt tree f.1 f.2).1 ∨
      search tree name (f :: files) l = search tree name files (l.attempt tree f.1 f.2).1 := by
  obtain ⟨locator, p⟩ := f
  rw [search, if_neg (mt List.contains_iff_mem.mp h)]
  dsimp only
  split
  · exact .inl rfl
  · exact .inr rfl

theorem search_untried_missed {f : Locator × FilePath} (h : f.2.components ∉ l.attempted)
    (hmissed : (search tree name (f :: files) l).sources.contains name = false) :
    search tree name (f :: files) l = search tree name files (l.attempt tree f.1 f.2).1 := by
  obtain ⟨locator, p⟩ := f
  rw [search, if_neg (mt List.contains_iff_mem.mp h)] at hmissed ⊢
  dsimp only at hmissed ⊢
  split at hmissed
  · rename_i hstops
    rw [Bool.and_eq_true, hmissed] at hstops
    cases hstops.2
  · rename_i hgoes
    rw [if_neg hgoes]

/-- Names once known are known behind a search. -/
theorem contains_search (h : l.sources.contains name) (tree : FileTree) (other : String)
    (files : List (Locator × FilePath)) : (search tree other files l).sources.contains name := by
  obtain ⟨id, hid⟩ := Option.isSome_iff_exists.mp h
  exact Option.isSome_iff_exists.mpr
    ⟨id, (search_leads tree other files l).grows.index name id hid⟩

/-- What one search has missed another search misses that has tried the same files or more, unless
it is known beforehand. -/
theorem contains_search_of_missed (hattempted : l.attempted ⊆ l'.attempted)
    (hmissed : (search tree name files l).sources.contains name = false) :
    (search tree name files l').sources.contains name = l'.sources.contains name := by
  induction files generalizing l l' with
  | nil => rfl
  | cons f files ih =>
    by_cases htried : f.2.components ∈ l.attempted
    · rw [search_tried htried] at hmissed
      rw [search_tried (hattempted htried)]
      exact ih hattempted hmissed
    rw [search_untried_missed htried hmissed] at hmissed
    -- The first search has read the file and found that it does not declare the name.
    have hundeclared : ¬ Declares tree f name := by
      intro hdeclares
      have hknown := (contains_attempt_iff l tree f name).mpr (.inr hdeclares)
      rw [contains_search hknown] at hmissed
      cases hmissed
    by_cases htried' : f.2.components ∈ l'.attempted
    · rw [search_tried htried']
      refine ih ?_ hmissed
      rw [attempted_attempt]
      exact List.append_subset.mpr
        ⟨hattempted, List.cons_subset.mpr ⟨htried', List.nil_subset _⟩⟩
    · have hsame : (l'.attempt tree f.1 f.2).1.sources.contains name =
          l'.sources.contains name := by
        rw [Bool.eq_iff_iff, contains_attempt_iff]
        exact or_iff_left hundeclared
      obtain hends | hgoes := @search_untried l' tree name files f htried'
      · rw [hends, hsame]
      · rw [hgoes, ← hsame]
        refine ih ?_ hmissed
        rw [attempted_attempt, attempted_attempt]
        exact List.append_subset.mpr ⟨List.subset_append_of_subset_left _ hattempted,
          List.subset_append_right _ _⟩

/-- What the search behind a missed one makes of the name is what it was beforehand. -/
theorem class?_search_of_missed (hvalid : l.sources.Valid) (hvalid' : l'.sources.Valid)
    (hattempted : l.attempted ⊆ l'.attempted)
    (hmissed : (search tree name files l).sources.class? name = none) :
    (search tree name files l').sources.class? name = l'.sources.class? name := by
  have hleads := search_leads tree name files l'
  have hcontains : (search tree name files l).sources.contains name = false := by
    rw [((search_leads tree name files l).valid hvalid).contains_iff, hmissed]
    rfl
  have hsame := contains_search_of_missed hattempted hcontains
  rw [(hleads.valid hvalid').contains_iff, hvalid'.contains_iff] at hsame
  cases hclass : l'.sources.class? name with
  | some c => exact hleads.grows.class? hclass
  | none =>
    rw [hclass] at hsame
    simpa using hsame

end Loading

namespace ChainEntry

/-- `e'` is the entry `e` at a later time: it has tried the files that `e` has tried. -/
structure Tries (e e' : ChainEntry) : Prop where
  strategy : e'.strategy = e.strategy
  attempted : e.attempted ⊆ e'.attempted

variable {e e' : ChainEntry} {tree : FileTree} {sources sources' : SourceSet} {name : String}

theorem Tries.refl (e : ChainEntry) : e.Tries e := ⟨rfl, List.Subset.refl _⟩

theorem Tries.trans {e'' : ChainEntry} (h : e.Tries e') (h' : e'.Tries e'') : e.Tries e'' :=
  ⟨h'.strategy.trans h.strategy, List.Subset.trans h.attempted h'.attempted⟩

theorem tries_ask (e : ChainEntry) (tree : FileTree) (sources : SourceSet) (name : String) :
    e.Tries (e.ask tree sources name).2.1 :=
  ⟨(ask_asks e tree sources name).strategy, (ask_asks e tree sources name).attempted⟩

theorem tries_keep (e : ChainEntry) (name : String) (answer : Option Class) :
    e.Tries (e.keep name answer) :=
  ⟨strategy_keep e name answer, fun _ h => (attempted_keep e name answer).symm ▸ h⟩

/-- A strategy whose misses are final answers a name that it has missed with what the units of the
session declare, if it reads files, and else not at all. -/
theorem Tries.ask (h : e.Tries e') (hcaches : e.strategy.cachesMisses) (hvalid : sources.Valid)
    (hvalid' : sources'.Valid) (hmissed : (e.ask tree sources name).1 = none) :
    (e'.ask tree sources' name).1 =
      match e.strategy with
      | .sourceRoots _ => sources'.class? name
      | _ => none := by
  cases hstrategy : e.strategy with
  | parsedSources =>
    rw [hstrategy] at hcaches
    cases hcaches
  | registry r =>
    rw [ask_registry hstrategy] at hmissed
    rw [ask_registry (h.strategy.trans hstrategy)]
    exact hmissed
  | sourceRoots locators =>
    rw [ask_sourceRoots hstrategy] at hmissed
    rw [ask_sourceRoots (h.strategy.trans hstrategy)]
    exact Loading.class?_search_of_missed hvalid hvalid' h.attempted hmissed
  | stub =>
    rw [ask_stub hstrategy] at hmissed
    rw [ask_stub (h.strategy.trans hstrategy)]
    exact hmissed

end ChainEntry

end JavaModel
