import JavaModel.Proofs.Library.Discovery
import JavaModel.Proofs.Library.Misses

/-! Files that source roots pass over. A path that was tried before is not tried again, by whichever
locator it was tried. Where both locators read the file at the path from one place, nothing is lost:
what the file declares is known. But texts in memory are kept by relative paths, so that a text of
another locator may stand under the same path. -/

namespace JavaModel

namespace Loading

variable {l : Loading} {tree : FileTree} {locators : List Locator} {name : String}
  {attempted : List (List FilePath.Component)} {sources sources' : SourceSet}

/-- The file is one that some locator offers for some name. -/
def Offers (locators : List Locator) (tree : FileTree) (f : Locator × FilePath) : Prop :=
  ∃ name, f ∈ Locator.filesFor locators tree name

theorem offers_iff {f : Locator × FilePath} : Offers locators tree f ↔
    f.1 ∈ locators ∧ ∃ name, f.2 ∈ f.1.candidates tree name := by
  obtain ⟨locator, p⟩ := f
  simp only [Offers, Locator.filesFor, List.mem_flatMap, List.mem_map, Prod.mk.injEq]
  constructor
  · rintro ⟨name, k, hk, q, hq, rfl, rfl⟩
    exact ⟨hk, name, hq⟩
  · rintro ⟨hk, name, hq⟩
    exact ⟨name, locator, hk, p, hq, rfl, rfl⟩

/-- Every path that was tried is that of a file all of whose classes are known. -/
def Accounts (locators : List Locator) (tree : FileTree)
    (attempted : List (List FilePath.Component)) (sources : SourceSet) : Prop :=
  ∀ k ∈ attempted, ∃ f, Offers locators tree f ∧ f.2.components = k ∧
    ∀ name, Declares tree f name → sources.contains name

theorem Accounts.mono (h : Accounts locators tree attempted sources)
    (hgrows : sources.Grows sources') : Accounts locators tree attempted sources' := by
  intro k hk
  obtain ⟨f, hf, hpath, hdeclared⟩ := h k hk
  refine ⟨f, hf, hpath, fun name hname => ?_⟩
  obtain ⟨id, hid⟩ := Option.isSome_iff_exists.mp (hdeclared name hname)
  exact Option.isSome_iff_exists.mpr ⟨id, hgrows.index name id hid⟩

theorem accounts_attempt (h : Accounts locators tree l.attempted l.sources)
    {f : Locator × FilePath} (hf : Offers locators tree f) :
    Accounts locators tree (l.attempt tree f.1 f.2).1.attempted
      (l.attempt tree f.1 f.2).1.sources := by
  rw [attempted_attempt]
  intro k hk
  rcases List.mem_append.mp hk with hk | hk
  · exact h.mono (attempt_leads l tree f.1 f.2).grows k hk
  · exact ⟨f, hf, (List.mem_singleton.mp hk).symm, fun name hname =>
      (contains_attempt_iff l tree f name).mpr (.inr hname)⟩

theorem accounts_search (h : Accounts locators tree l.attempted l.sources)
    {files : List (Locator × FilePath)} (hfiles : ∀ f ∈ files, Offers locators tree f)
    (name : String) : Accounts locators tree (search tree name files l).attempted
      (search tree name files l).sources := by
  induction files generalizing l with
  | nil => exact h
  | cons f files ih =>
    obtain ⟨hf, hfiles⟩ := List.forall_mem_cons.mp hfiles
    by_cases htried : f.2.components ∈ l.attempted
    · rw [search_tried htried]
      exact ih h hfiles
    · obtain hends | hgoes := @search_untried l tree name files f htried
      · rw [hends]
        exact accounts_attempt h hf
      · rw [hgoes]
        exact ih (accounts_attempt h hf) hfiles

/-! ### Files with one path -/

/-- Two locators that read every path from the same place: the same one, or both from the tree. -/
def SharePaths (k l : Locator) : Prop := k = l ∨ (k.isDirectory ∧ l.isDirectory)

/-- Files that locators offer under one path read the same, if the locators share their paths. -/
theorem read_eq_of_sharePaths {f g : Locator × FilePath} (hshare : SharePaths f.1 g.1)
    (hf : Offers locators tree f) (hg : Offers locators tree g)
    (hsame : f.2.components = g.2.components) : f.1.read tree f.2 = g.1.read tree g.2 := by
  obtain ⟨k, p⟩ := f
  obtain ⟨l, q⟩ := g
  have hdisk (root root' : FilePath) (extension extension' : String)
      (hf : Offers locators tree (.directory root extension, p))
      (hg : Offers locators tree (.directory root' extension', q)) : tree.read p = tree.read q := by
    obtain ⟨_, _, hp⟩ := offers_iff.mp hf
    obtain ⟨_, _, hq⟩ := offers_iff.mp hg
    obtain ⟨_, hlocate, _⟩ := FileTree.hasFile_iff.mp (List.mem_filter.mp hp).2
    obtain ⟨_, hlocate', _⟩ := FileTree.hasFile_iff.mp (List.mem_filter.mp hq).2
    exact FileTree.read_congr (FileTree.locate_congr hsame hlocate' hlocate)
  rcases hshare with hshare | ⟨hk, hl⟩
  · obtain rfl : k = l := hshare
    cases k with
    | directory root extension => exact hdisk root root extension extension hf hg
    | memory files =>
      have htext : files.text? p = files.text? q := by
        have hsame : p.components = q.components := hsame
        simp only [MemoryFiles.text?, FilePath.same, hsame]
      simp only [Locator.read, htext]
  · cases k with
    | memory files => cases hk
    | directory root extension =>
      cases l with
      | memory files => cases hl
      | directory root' extension' => exact hdisk root root' extension extension' hf hg

/-- Files with one text declare the same names, wherever they stand. -/
theorem declares_congr {f g : Locator × FilePath}
    (hread : f.1.read tree f.2 = g.1.read tree g.2) (h : Declares tree f name) :
    Declares tree g name := by
  obtain ⟨text, id, u, htext, hu, hc⟩ := h
  obtain ⟨v, hv, _⟩ := SourceUnit.ofText_elsewhere hu id g.2
  exact ⟨text, id, v, hread ▸ htext, hv, SourceUnit.exists_class_elsewhere hu hv hc⟩

/-- A file that is passed over for another one of the same path. -/
def Overlooked (locators : List Locator) (tree : FileTree) (f : Locator × FilePath)
    (name : String) : Prop :=
  ∃ g, Offers locators tree g ∧ ¬ SharePaths g.1 f.1 ∧ g.2.components = f.2.components ∧
    ¬ Declares tree g name

/-- If a search misses a name, then each of its files that declares the name was passed over. -/
theorem overlooked_of_search (h : Accounts locators tree l.attempted l.sources)
    (hmissed : (search tree name (Locator.filesFor locators tree name) l).sources.contains name
      = false) {f : Locator × FilePath} (hf : f ∈ Locator.filesFor locators tree name)
    (hdeclares : Declares tree f name) : Overlooked locators tree f name := by
  have hoffered : ∀ g ∈ Locator.filesFor locators tree name, Offers locators tree g :=
    fun g hg => ⟨name, hg⟩
  obtain ⟨g, hg, hpath, hknown⟩ :=
    accounts_search h hoffered name _ (attempted_of_search hmissed f hf)
  have hundeclared : ¬ Declares tree g name := by
    intro hname
    rw [hknown name hname] at hmissed
    cases hmissed
  refine ⟨g, hg, fun hshare => hundeclared ?_, hpath, hundeclared⟩
  exact declares_congr (read_eq_of_sharePaths hshare hg (hoffered f hf) hpath).symm hdeclares

end Loading

namespace ChainEntry

variable {e : ChainEntry} {tree : FileTree} {sources sources' : SourceSet} {name : String}

/-- The files that the entry has tried are accounted for, if it tries any. -/
def Accounts (tree : FileTree) (e : ChainEntry) (sources : SourceSet) : Prop :=
  ∀ locators, e.strategy = .sourceRoots locators →
    Loading.Accounts locators tree e.attempted sources

theorem accounts_fresh (strategy : Strategy) : (fresh strategy).Accounts tree sources :=
  fun _ _ _ hk => absurd hk List.not_mem_nil

theorem Accounts.mono (h : e.Accounts tree sources) (hgrows : sources.Grows sources') :
    e.Accounts tree sources' := fun locators hstrategy => (h locators hstrategy).mono hgrows

theorem Accounts.ask (h : e.Accounts tree sources) (name : String) :
    (e.ask tree sources name).2.1.Accounts tree (e.ask tree sources name).2.2 := by
  intro locators hstrategy
  rw [(ask_asks e tree sources name).strategy] at hstrategy
  rw [ask_sourceRoots hstrategy]
  exact Loading.accounts_search (l := ⟨sources, e.attempted⟩) (h locators hstrategy)
    (fun g hg => ⟨name, hg⟩) name

theorem Accounts.keep (h : e.Accounts tree sources) (name : String) (answer : Option Class) :
    (e.keep name answer).Accounts tree sources := by
  intro locators hstrategy
  rw [strategy_keep] at hstrategy
  rw [attempted_keep]
  exact h locators hstrategy

/-- If source roots miss a name, then each of their files that declares it was passed over. -/
theorem Accounts.overlooked (h : e.Accounts tree sources) (hvalid : sources.Valid)
    {locators : List Locator} (hstrategy : e.strategy = .sourceRoots locators)
    (hmissed : (e.ask tree sources name).1 = none) {f : Locator × FilePath}
    (hf : f ∈ Locator.filesFor locators tree name) (hdeclares : Loading.Declares tree f name) :
    Loading.Overlooked locators tree f name := by
  rw [ask_sourceRoots hstrategy] at hmissed
  have hleads := Loading.search_leads tree name (Locator.filesFor locators tree name)
    ⟨sources, e.attempted⟩
  refine Loading.overlooked_of_search (l := ⟨sources, e.attempted⟩) (h locators hstrategy) ?_ hf
    hdeclares
  rw [(hleads.valid hvalid).contains_iff]
  exact Bool.eq_false_iff.mpr (Option.not_isSome_iff_eq_none.mpr hmissed)

end ChainEntry

end JavaModel
