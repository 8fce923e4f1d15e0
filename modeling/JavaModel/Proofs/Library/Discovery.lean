import JavaModel.Proofs.FilePath
import JavaModel.Proofs.FileTree
import JavaModel.Proofs.Library.Exhaustion
import JavaModel.Proofs.Library.Naming
import JavaModel.Proofs.Model.Relocation
import JavaModel.Proofs.Model.Spelling

/-! Classes in the files that convention has for them. Source roots look for a class in its file
among others, and try no file twice, so that they may have tried it for another name. But then the
unit of the file is in the session, and with it the class. So a chain that asks the units of the
session and the source roots finds every class that stands where convention has it. -/

namespace JavaModel

/-! ### Declarations -/

/-- A class that a file declares, and that is the only one of its name in all files that can be
read. -/
structure Declaration (tree : FileTree) where
  path : FilePath
  text : String
  unit : SourceUnit
  index : ClassIndex
  declared : Class
  read : tree.read path = .ok text
  isUnit : SourceUnit.ofText ⟨0⟩ path text = .ok unit
  isClass : unit.classAt? index = some declared
  only : ∀ p other u i c, tree.read p = .ok other → SourceUnit.ofText ⟨0⟩ p other = .ok u →
    u.classAt? i = some c → c.fullName = declared.fullName →
      tree.locate p = tree.locate path ∧ i = index

namespace Declaration

variable {tree : FileTree} (d : Declaration tree)

/-- The full name of the class. -/
def name : String := d.declared.fullName

/-- The class is the declared one as some path to the file and some id give it. -/
def Is (c : Class) : Prop :=
  ∃ p id u, tree.locate p = tree.locate d.path ∧ SourceUnit.ofText id p d.text = .ok u ∧
    u.classAt? d.index = some c

/-- The file stands where convention has it: in a directory for each segment of the package, named
for the outermost class around the declared one. -/
def IsConventional (root : FilePath) (extension : String) : Prop :=
  ∃ outermost ∈ (d.unit.scopeFrom (some d.index)).getLast?,
    d.path.fileName? = some (outermost.name ++ "." ++ extension) ∧
      d.path = root.join (.ofNames (d.unit.package.toList.flatMap Name.segments ++
        [outermost.name ++ "." ++ extension]))

instance (root : FilePath) (extension : String) : Decidable (d.IsConventional root extension) :=
  inferInstanceAs (Decidable (∃ outermost ∈ (d.unit.scopeFrom (some d.index)).getLast?, _ ∧ _))

variable {d} {p : FilePath} {other : String} {id : UnitId} {u : SourceUnit} {i : ClassIndex}
  {c : Class}

/-- A class of the name that is read from any file is the declared one. -/
theorem is_of_read (hread : tree.read p = .ok other) (hunit : SourceUnit.ofText id p other = .ok u)
    (hc : u.classAt? i = some c) (hname : c.fullName = d.name) : d.Is c := by
  obtain ⟨v, hv, hnames⟩ := SourceUnit.ofText_elsewhere hunit ⟨0⟩ p
  have hat := hnames i
  rw [hc, Option.map_some, Option.map_eq_some_iff] at hat
  obtain ⟨c', hc', hsame⟩ := hat
  obtain ⟨hlocate, rfl⟩ := d.only p other v i c' hread hv hc' (hsame.trans hname)
  rw [FileTree.read_congr hlocate, d.read] at hread
  cases hread
  exact ⟨p, id, u, hlocate, hunit, hc⟩

/-- A unit that is read from the file declares the name. -/
theorem declares_of_read (hunit : SourceUnit.ofText id p d.text = .ok u) :
    ∃ c ∈ u.classes, c.fullName = d.name := by
  obtain ⟨v, hv, hnames⟩ := SourceUnit.ofText_elsewhere d.isUnit id p
  obtain rfl : u = v := Except.ok.inj (hunit.symm.trans hv)
  have hat := hnames d.index
  rw [d.isClass, Option.map_some, Option.map_eq_some_iff] at hat
  obtain ⟨c, hc, hname⟩ := hat
  exact ⟨c, List.mem_of_getElem? hc, hname⟩

/-- A known file with the components of the path is the file of the declaration. -/
theorem locate_eq (hfile : tree.hasFile p) (hsame : p.components = d.path.components) :
    tree.locate p = tree.locate d.path := by
  obtain ⟨_, hp, _⟩ := FileTree.hasFile_iff.mp hfile
  obtain ⟨_, hpath, _⟩ := FileTree.hasFile_iff.mp (FileTree.hasFile_of_read d.read)
  exact FileTree.locate_congr hsame hpath hp

/-- Read from another path, a class whose name no other class of the unit has is at its place. -/
theorem index_eq {path : FilePath} {text : String} {unit : SourceUnit}
    (hunit : SourceUnit.ofText ⟨0⟩ path text = .ok unit)
    (hnames : (unit.classes.map (·.fullName)).Nodup)
    (hu : SourceUnit.ofText ⟨0⟩ p text = .ok u) {index : ClassIndex} {declared : Class}
    (hclass : unit.classAt? index = some declared) (hc : u.classAt? i = some c)
    (hname : c.fullName = declared.fullName) : i = index := by
  obtain ⟨v, hv, hsame⟩ := SourceUnit.ofText_elsewhere hunit ⟨0⟩ p
  obtain rfl : u = v := Except.ok.inj (hu.symm.trans hv)
  have hat {k : ClassIndex} (h : (unit.classAt? k).map (·.fullName) = some declared.fullName) :
      (unit.classes.map (·.fullName))[k.number]? = some declared.fullName := by
    rwa [List.getElem?_map]
  have hi := hat (by rw [← hsame i, hc, Option.map_some, hname])
  have hindex := hat (by rw [hclass, Option.map_some])
  obtain ⟨hlt, _⟩ := List.getElem?_eq_some_iff.mp hi
  exact congrArg ClassIndex.mk ((List.getElem?_inj hlt hnames).mp (hi.trans hindex.symm))

/-- A class of the only file there is, if no two classes of the file have one name. -/
def ofSole {tree : FileTree} {place : Place} (hfiles : tree.files.map Prod.fst = [place])
    (path : FilePath) (text : String) (read : tree.read path = .ok text)
    (herror : (parse text).error = none) (index : ClassIndex)
    (hindex : index.number < (SourceUnit.ofEvents ⟨0⟩ path (parse text).events).classes.length)
    (hnames : ((SourceUnit.ofEvents ⟨0⟩ path (parse text).events).classes.map (·.fullName)).Nodup) :
    Declaration tree :=
  have hunit := SourceUnit.ofText_of_parses herror ⟨0⟩ path
  { path, text, index, read
    unit := .ofEvents ⟨0⟩ path (parse text).events
    declared := (SourceUnit.ofEvents ⟨0⟩ path (parse text).events).classes.get ⟨_, hindex⟩
    isUnit := hunit
    isClass := List.getElem?_eq_getElem hindex
    only := fun p other u i c hp hu hc hname => by
      have hlocate : tree.locate p = tree.locate path :=
        (FileTree.locate_of_sole hfiles hp).trans (FileTree.locate_of_sole hfiles read).symm
      rw [FileTree.read_congr hlocate, read] at hp
      cases hp
      exact ⟨hlocate, index_eq hunit hnames hu (List.getElem?_eq_getElem hindex) hc hname⟩ }

end Declaration

/-! ### Where a class is looked for -/

theorem Lexer.IsWord.isPlain {word : String} (h : IsWord word) : FilePath.IsPlain word := by
  refine ⟨h.nonempty, fun hslash => ?_, fun hdot => ?_⟩
  · have := h.chars '/' hslash
    revert this
    decide
  · have := h.chars '.' hdot
    revert this
    decide

/-- A class in its conventional file is looked for there. -/
theorem Declaration.IsConventional.mem_candidates {tree : FileTree} {d : Declaration tree}
    {root : FilePath} {extension : String} (h : d.IsConventional root extension)
    (hextension : extension ≠ "") :
    d.path ∈ (Locator.directory root extension).candidates tree d.name := by
  obtain ⟨outermost, hlast, _, hpath⟩ := h
  obtain ⟨inner, hscope⟩ := List.getLast?_eq_some_iff.mp hlast
  have hsegments : Name.segments d.name = d.unit.package.toList.flatMap Name.segments ++
      outermost.name :: inner.reverse.map (·.name) := by
    rw [name, SourceUnit.segments_fullName d.isUnit d.isClass, hscope, List.reverse_append]
    rfl
  -- All segments of the name are words.
  have hplain : ∀ w ∈ Name.segments d.name, FilePath.IsPlain w := fun w hw =>
    ((SourceUnit.spelled_ofText d.isUnit).classes _ (List.mem_of_getElem? d.isClass) w
      hw).isWord.isPlain
  rw [hsegments] at hplain
  obtain ⟨hpackage, hnames⟩ := List.forall_mem_append.mp hplain
  refine List.mem_filter.mpr ⟨List.mem_map.mpr ⟨_, ?_, hpath.symm⟩, FileTree.hasFile_of_read d.read⟩
  exact mem_candidatePaths hsegments hpackage (List.forall_mem_cons.mp hnames).1 hextension

/-- The locator reads files of the tree. -/
def Locator.isDirectory : Locator → Bool
  | directory _ _ => true
  | memory _ => false

/-- The strategy reads no files but those of the tree. -/
def Strategy.isOnDisk : Strategy → Bool
  | sourceRoots locators => locators.all Locator.isDirectory
  | _ => true

/-- Source roots on disk try known files only, and read them from the tree. -/
theorem Locator.filesFor_isDirectory {locators : List Locator}
    (h : ∀ l ∈ locators, l.isDirectory) {tree : FileTree} {name : String}
    {f : Locator × FilePath} (hf : f ∈ filesFor locators tree name) :
    f.1.read tree f.2 = tree.read f.2 ∧ tree.hasFile f.2 := by
  obtain ⟨l, hl, hf⟩ := List.mem_flatMap.mp hf
  obtain ⟨p, hp, rfl⟩ := List.mem_map.mp hf
  cases l with
  | directory root extension => exact ⟨rfl, (List.mem_filter.mp hp).2⟩
  | memory files => exact absurd (h _ hl) Bool.false_ne_true

/-! ### What source roots preserve -/

namespace Declaration

variable {tree : FileTree} (d : Declaration tree)

/-- All classes of the name among the units are the declared one. -/
def Alone (sources : SourceSet) : Prop := ∀ c ∈ sources.declared, c.fullName = d.name → d.Is c

/-- If the file has been tried, a unit declares the name. -/
def Noted (attempted : List (List FilePath.Component)) (sources : SourceSet) : Prop :=
  d.path.components ∈ attempted → ∃ c ∈ sources.declared, c.fullName = d.name

variable {d} {l : Loading} {locator : Locator} {p : FilePath} {name : String}

theorem Noted.mono {attempted : List (List FilePath.Component)} {sources sources' : SourceSet}
    (h : d.Noted attempted sources) (hgrows : sources.Grows sources') :
    d.Noted attempted sources' := by
  intro htried
  obtain ⟨c, hc, hname⟩ := h htried
  obtain ⟨more, hmore⟩ := hgrows.units
  refine ⟨c, ?_, hname⟩
  rw [SourceSet.declared, ← hmore, List.flatMap_append]
  exact List.mem_append_left _ hc

theorem keeps_attempt (halone : d.Alone l.sources) (hnoted : d.Noted l.attempted l.sources)
    (hreads : locator.read tree p = tree.read p) (hfile : tree.hasFile p) :
    let l' := (l.attempt tree locator p).1
    d.Alone l'.sources ∧ d.Noted l'.attempted l'.sources := by
  -- Only where the file itself is tried anything must be shown.
  have hnoted' {sources : SourceSet} (hgrows : l.sources.Grows sources)
      (hsame : tree.locate p = tree.locate d.path →
        ∃ c ∈ sources.declared, c.fullName = d.name) :
      d.Noted (l.attempted ++ [p.components]) sources := by
    intro htried
    rcases List.mem_append.mp htried with htried | htried
    · exact hnoted.mono hgrows htried
    · exact hsame (locate_eq hfile (List.mem_singleton.mp htried).symm)
  unfold Loading.attempt
  rw [hreads]
  dsimp only
  split
  · rename_i fault hfault
    refine ⟨halone, hnoted' (.refl _) fun hlocate => ?_⟩
    rw [FileTree.read_congr hlocate, d.read] at hfault
    cases hfault
  · rename_i text hread
    split
    · rename_i e hmalformed
      refine ⟨halone, hnoted' (SourceSet.grows_reserveId _) fun hlocate => ?_⟩
      rw [FileTree.read_congr hlocate, d.read] at hread
      cases hread
      obtain ⟨u, hu, _⟩ := SourceUnit.ofText_elsewhere d.isUnit l.sources.reserveId.1 p
      rw [hu] at hmalformed
      cases hmalformed
    · rename_i u hunit
      have hdeclared := SourceSet.declared_insert l.sources.reserveId.2 u
      have hgrows := (SourceSet.grows_reserveId l.sources).trans (SourceSet.grows_insert _ u)
      refine ⟨fun c hc hname => ?_, hnoted' hgrows fun hlocate => ?_⟩
      · rw [hdeclared] at hc
        rcases List.mem_append.mp hc with hc | hc
        · exact halone c hc hname
        · obtain ⟨n, hn⟩ := List.mem_iff_getElem?.mp hc
          exact is_of_read (i := ⟨n⟩) hread hunit hn hname
      · rw [FileTree.read_congr hlocate, d.read] at hread
        cases hread
        obtain ⟨c, hc, hname⟩ := declares_of_read hunit
        rw [hdeclared]
        exact ⟨c, List.mem_append_right _ hc, hname⟩

theorem keeps_search {files : List (Locator × FilePath)} (halone : d.Alone l.sources)
    (hnoted : d.Noted l.attempted l.sources)
    (hfiles : ∀ f ∈ files, f.1.read tree f.2 = tree.read f.2 ∧ tree.hasFile f.2) :
    let l' := Loading.search tree name files l
    d.Alone l'.sources ∧ d.Noted l'.attempted l'.sources := by
  induction files generalizing l with
  | nil => exact ⟨halone, hnoted⟩
  | cons f files ih =>
    obtain ⟨locator, p⟩ := f
    obtain ⟨⟨hreads, hfile⟩, hrest⟩ := List.forall_mem_cons.mp hfiles
    unfold Loading.search
    split
    · exact ih halone hnoted hrest
    · obtain ⟨halone', hnoted'⟩ := keeps_attempt halone hnoted hreads hfile
      dsimp only
      split
      · exact ⟨halone', hnoted'⟩
      · exact ih halone' hnoted' hrest

theorem keeps_ask {e : ChainEntry} {sources : SourceSet} (hdisk : e.strategy.isOnDisk)
    (halone : d.Alone sources) (hnoted : d.Noted e.attempted sources) (name : String) :
    d.Alone (e.ask tree sources name).2.2 ∧
      d.Noted (e.ask tree sources name).2.1.attempted (e.ask tree sources name).2.2 := by
  cases hstrategy : e.strategy with
  | parsedSources => rw [ChainEntry.ask_parsedSources hstrategy]; exact ⟨halone, hnoted⟩
  | registry r => rw [ChainEntry.ask_registry hstrategy]; exact ⟨halone, hnoted⟩
  | sourceRoots locators =>
    rw [hstrategy, Strategy.isOnDisk, List.all_eq_true] at hdisk
    rw [ChainEntry.ask_sourceRoots hstrategy]
    exact keeps_search (l := ⟨sources, e.attempted⟩) halone hnoted fun f =>
      Locator.filesFor_isDirectory hdisk
  | stub => rw [ChainEntry.ask_stub hstrategy]; exact ⟨halone, hnoted⟩

end Declaration

/-! ### Questions to a chain -/

section

variable {tree : FileTree} {sources sources' : SourceSet} {e : ChainEntry} {es : List ChainEntry}
  {name : String} {onlyExisting : Bool} {position : Nat}

/-- What asking any entry and keeping its answer preserves of the units and of the entry, a question
to a chain preserves, if it is not lost of an entry while units are added. -/
theorem consult_keeps {I : SourceSet → Prop} {J : ChainEntry → SourceSet → Prop}
    (hask : ∀ {e sources}, I sources → J e sources →
      let asked := ChainEntry.ask e tree sources name
      I asked.2.2 ∧ J (asked.2.1.keep name asked.1) asked.2.2)
    (hmono : ∀ {e sources sources'}, J e sources → SourceSet.Grows sources sources' → J e sources')
    (onlyExisting : Bool) (position : Nat) (hI : I sources) (hJ : ∀ e ∈ es, J e sources) :
    let r := consult tree onlyExisting name position es sources
    I r.sources ∧ ∀ e ∈ r.entries, J e r.sources := by
  have hresponds {e e' sources sources' answer} (hI : I sources) (hJ : J e sources)
      (h : Responds tree onlyExisting name e sources answer e' sources') :
      I sources' ∧ J e' sources' := by
    cases h with
    | skipped | found | absent => exact ⟨hI, hJ⟩
    | asked _ _ hanswer => exact hanswer ▸ hask hI hJ
  refine consult_induction (motive := fun _ es sources r =>
    I sources → (∀ e ∈ es, J e sources) → I r.sources ∧ ∀ e ∈ r.entries, J e r.sources)
    ?nil ?passed ?answered position es sources hI hJ
  case nil => exact fun _ _ hI _ => ⟨hI, fun e he => absurd he List.not_mem_nil⟩
  case passed =>
    intro position e es sources e' sources' tally h r ih hI hJ
    obtain ⟨he, hes⟩ := List.forall_mem_cons.mp hJ
    obtain ⟨hI', he'⟩ := hresponds hI he h
    obtain ⟨hI'', hes'⟩ := ih hI' fun d hd => hmono (hes d hd) h.grows
    exact ⟨hI'', List.forall_mem_cons.mpr ⟨hmono he' (grows_consult ..), hes'⟩⟩
  case answered =>
    intro _ e es sources c e' sources' tally h hI hJ
    obtain ⟨he, hes⟩ := List.forall_mem_cons.mp hJ
    obtain ⟨hI', he'⟩ := hresponds hI he h
    exact ⟨hI', List.forall_mem_cons.mpr ⟨he', fun d hd => hmono (hes d hd) h.grows⟩⟩

/-- The units of the session are to be asked, or have been asked in vain. -/
def Asked (sources : SourceSet) (name : String) (es : List ChainEntry) : Prop :=
  .parsedSources ∈ es.map (·.strategy) ∨ sources.class? name = none

theorem Asked.tail (h : Asked sources name (e :: es)) (hother : e.strategy ≠ .parsedSources) :
    Asked sources name es :=
  h.imp_left fun hmem => (List.mem_cons.mp hmem).resolve_left (Ne.symm hother)

/-- An entry that does not answer has asked the units of the session, or is not there to do so. -/
theorem Asked.responds {e' : ChainEntry} (h : Asked sources name (e :: es))
    (he : e.Faithful tree sources)
    (hresponds : Responds tree onlyExisting name e sources none e' sources') :
    Asked sources' name es := by
  cases hresponds with
  | skipped hskips =>
    refine h.tail fun hstrategy => ?_
    simp [Skips, hstrategy, Strategy.isAuthoritative] at hskips
  | absent _ hremembered =>
    refine h.tail fun hstrategy => ?_
    have hmisses := he.absent name (ChainEntry.remembered_absent hremembered)
    rwa [ChainEntry.Misses, hstrategy] at hmisses
  | asked _ _ hnone =>
    cases hstrategy : e.strategy with
    | parsedSources =>
      rw [ChainEntry.ask_parsedSources hstrategy] at hnone ⊢
      exact .inr hnone
    | registry r =>
      rw [ChainEntry.ask_registry hstrategy]
      exact h.tail (by simp [hstrategy])
    | sourceRoots locators =>
      rw [ChainEntry.ask_sourceRoots hstrategy] at hnone ⊢
      exact .inr hnone
    | stub =>
      rw [ChainEntry.ask_stub hstrategy]
      exact h.tail (by simp [hstrategy])

/-- Where a question fails for which the units of the session were asked, none of them declares the
name afterwards. -/
theorem class?_of_unanswered (hfaithful : ∀ e ∈ es, e.Faithful tree sources)
    (hasked : Asked sources name es)
    (hnone : (consult tree onlyExisting name position es sources).answer = none) :
    (consult tree onlyExisting name position es sources).sources.class? name = none := by
  refine consult_induction (motive := fun _ es sources r =>
    (∀ e ∈ es, e.Faithful tree sources) → Asked sources name es → r.answer = none →
      r.sources.class? name = none)
    ?nil ?passed ?answered position es sources hfaithful hasked hnone
  case nil => exact fun _ _ _ hasked _ => hasked.resolve_left List.not_mem_nil
  case passed =>
    intro _ e es sources e' sources' tally hresponds r ih hfaithful hasked hnone
    obtain ⟨he, hes⟩ := List.forall_mem_cons.mp hfaithful
    exact ih (fun d hd => (hes d hd).mono hresponds.grows) (hasked.responds he hresponds) hnone
  case answered =>
    intro _ e es sources c e' sources' tally _ _ _ hnone
    cases hnone

theorem SourceSet.IsFilled.class?_isSome (h : sources.IsFilled) {c : Class}
    (hc : c ∈ sources.declared) : (sources.class? c.fullName).isSome := by
  rw [h.indexed.class?, first?, List.find?_isSome]
  exact ⟨c, hc, decide_eq_true rfl⟩

end

namespace Declaration

variable {tree : FileTree} {d : Declaration tree} {sources : SourceSet} {es : List ChainEntry}

/-- The entry reads no files but those of the tree, and if it has tried the file of the declaration
a unit declares the name. -/
def Reads (d : Declaration tree) (e : ChainEntry) (sources : SourceSet) : Prop :=
  e.strategy.isOnDisk ∧ d.Noted e.attempted sources

theorem keeps_consult (halone : d.Alone sources) (hreads : ∀ e ∈ es, d.Reads e sources)
    (onlyExisting : Bool) (name : String) (position : Nat) :
    let r := consult tree onlyExisting name position es sources
    d.Alone r.sources ∧ ∀ e ∈ r.entries, d.Reads e r.sources := by
  refine consult_keeps (fun {e sources} halone ⟨hdisk, hnoted⟩ => ?_)
    (fun ⟨hdisk, hnoted⟩ hgrows => ⟨hdisk, hnoted.mono hgrows⟩) onlyExisting position halone hreads
  obtain ⟨halone', hnoted'⟩ := keeps_ask hdisk halone hnoted name
  refine ⟨halone', ?_, ?_⟩
  · rwa [ChainEntry.strategy_keep, (ChainEntry.ask_asks e tree sources name).strategy]
  · rwa [ChainEntry.attempted_keep]

/-- A chain that asks the units of the session and a source root finds what stands below the root
where convention has it. -/
theorem IsConventional.isSome_answer {root : FilePath} {extension : String}
    (h : d.IsConventional root extension) (hextension : extension ≠ "")
    (hfaithful : ∀ e ∈ es, e.Faithful tree sources) (hvalid : sources.Valid)
    (hfilled : sources.IsFilled) (halone : d.Alone sources) (hreads : ∀ e ∈ es, d.Reads e sources)
    (hparsed : .parsedSources ∈ es.map (·.strategy)) {locators : List Locator}
    (hroots : .sourceRoots locators ∈ es.map (·.strategy))
    (hroot : .directory root extension ∈ locators) (position : Nat) :
    (consult tree true d.name position es sources).answer.isSome := by
  by_contra hsome
  have hnone := Option.not_isSome_iff_eq_none.mp hsome
  have hconsults := consult_consults hfaithful hvalid true d.name position
  have hkept := (keeps_consult halone hreads true d.name position).2
  have hunknown := class?_of_unanswered hfaithful (.inl hparsed) hnone
  -- The source roots have recorded the miss, and so have tried the file.
  rw [← hconsults.strategies] at hroots
  obtain ⟨e, he, hstrategy⟩ := List.mem_map.mp hroots
  have habsent : d.name ∈ e.absent := by
    have hexhausted := (exhausted_of_consult hnone).1 e he
    rw [ChainEntry.Exhausted, hstrategy] at hexhausted
    exact (hexhausted rfl).2 rfl
  have htried : d.path.components ∈ e.attempted := by
    have hmisses := (hconsults.faithful e he).absent d.name habsent
    rw [ChainEntry.Misses, hstrategy] at hmisses
    refine hmisses (.directory root extension, d.path) (List.mem_flatMap.mpr ⟨_, hroot, ?_⟩)
    exact List.mem_map_of_mem (h.mem_candidates hextension)
  obtain ⟨c, hc, hname⟩ := (hkept e he).2 htried
  have hreaches := reaches_consult tree true d.name position es sources
  have hknown := (hfilled.reaches hreaches).class?_isSome hc
  rw [hname, hunknown] at hknown
  cases hknown

/-- An answer for the name that is no stub is the declared class, if the registries of the chain
have none of the name. -/
theorem is_of_consult (hfaithful : ∀ e ∈ es, e.Faithful tree sources) (hfilled : sources.IsFilled)
    (halone : d.Alone sources) (hreads : ∀ e ∈ es, d.Reads e sources)
    (hregistry : ∀ r, .registry r ∈ es.map (·.strategy) → r.find? d.name = none)
    {onlyExisting : Bool} {position : Nat} {a : Answer}
    (ha : (consult tree onlyExisting d.name position es sources).answer = some a)
    (hreal : a.found.isStub = false) : d.Is a.found := by
  obtain ⟨e, he, hfinds⟩ := finds_of_consult hfaithful ha
  have hunits (hfound : (consult tree onlyExisting d.name position es sources).sources.class?
      d.name = some a.found) : d.Is a.found := by
    have hreaches := reaches_consult tree onlyExisting d.name position es sources
    obtain ⟨hname, hdeclared⟩ := (hfilled.reaches hreaches).class?_spec hfound
    exact (keeps_consult halone hreads onlyExisting d.name position).1 _ hdeclared hname
  cases hstrategy : e.strategy with
  | parsedSources | sourceRoots locators =>
    rw [hstrategy] at hfinds
    exact hunits hfinds
  | registry r =>
    rw [hstrategy] at hfinds
    obtain ⟨shape, hshape, _⟩ := Option.map_eq_some_iff.mp hfinds
    rw [hregistry r (hstrategy ▸ List.mem_map_of_mem he)] at hshape
    cases hshape
  | stub =>
    rw [hstrategy] at hfinds
    rw [hfinds.2] at hreal
    cases hreal

end Declaration

end JavaModel
