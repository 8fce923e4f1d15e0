import JavaModel.Proofs.Library.Discovery
import JavaModel.Proofs.Session.Naming
import JavaModel.Proofs.Session.OnDemand

/-! Classes found on demand. Below a source root every class that stands where convention has it is
found, whatever has been said to the session before: a miss is recorded only once the file of the
class has been tried, and then its unit is there. -/

namespace JavaModel

namespace Session

variable {s t : Session} {tree : FileTree} {d : Declaration tree}

/-! ### What a host adds -/

/-- The units that a turn adds if it is no question. -/
def addedByHost (turn : Turn) (s : Session) : List SourceUnit :=
  match turn with
  | .ask _ => []
  | _ => (respond turn s).2.sources.units.drop s.sources.units.length

/-- The units that a host adds in a dialogue. -/
def hosted (s : Session) : List Turn → List SourceUnit
  | [] => []
  | turn :: ts => addedByHost turn s ++ hosted (respond turn s).2 ts

theorem mem_addedByHost {turn : Turn} (hleads : s.Leads (respond turn s).2)
    (hturn : ∀ q, turn ≠ .ask q) {u : SourceUnit} (hu : u ∈ (respond turn s).2.sources.units) :
    u ∈ s.sources.units ∨ u ∈ addedByHost turn s := by
  obtain ⟨more, hmore⟩ := hleads.sources.units
  have hadded : addedByHost turn s = more := by
    unfold addedByHost
    split
    · exact absurd rfl (hturn _)
    · rw [← hmore, List.drop_left]
  rw [← hmore] at hu
  rw [hadded]
  exact List.mem_append.mp hu

/-! ### What a dialogue preserves -/

/-- What the session has done with its tree agrees with the declaration: no other class of the name
is among the units, and source roots that have tried the file have left its unit there. -/
structure Honors (d : Declaration tree) (s : Session) : Prop where
  tree : s.tree = tree
  alone : d.Alone s.sources
  reads : ∀ e ∈ s.entries, d.Reads e s.sources

theorem tree_count (s : Session) (tally : Tally) : (s.count tally).tree = s.tree := by
  cases tally <;> rfl

theorem tree_find (onlyExisting : Bool) (name : String) (s : Session) :
    (find onlyExisting name s).2.tree = s.tree := tree_count _ _

/-- What asking any entry and keeping its answer preserves of the units and of the entry, a question
for a class preserves, if it is not lost of an entry while units are added. -/
theorem find_keeps {I : SourceSet → Prop} {J : ChainEntry → SourceSet → Prop} {name : String}
    (hask : ∀ {e sources}, I sources → J e sources →
      let asked := ChainEntry.ask e s.tree sources name
      I asked.2.2 ∧ J (asked.2.1.keep name asked.1) asked.2.2)
    (hmono : ∀ {e sources sources'}, J e sources → SourceSet.Grows sources sources' → J e sources')
    (onlyExisting : Bool) (hI : I s.sources) (hJ : ∀ e ∈ s.entries, J e s.sources) :
    let t := (find onlyExisting name s).2
    I t.sources ∧ ∀ e ∈ t.entries, J e t.sources := by
  have hkept := consult_keeps (I := I) (J := J) hask hmono onlyExisting 0 hI hJ
  have hentries : (find onlyExisting name s).2.entries =
      (consult s.tree onlyExisting name 0 s.entries s.sources).entries := entries_count _ _
  have hsources : (find onlyExisting name s).2.sources =
      (consult s.tree onlyExisting name 0 s.entries s.sources).sources := sources_count _ _
  dsimp only
  rw [hentries, hsources]
  exact hkept

theorem Honors.find (h : s.Honors d) (onlyExisting : Bool) (name : String) :
    (find onlyExisting name s).2.Honors d := by
  obtain ⟨halone, hreads⟩ := d.keeps_consult h.alone h.reads onlyExisting name 0
  have hentries : (Session.find onlyExisting name s).2.entries =
      (consult s.tree onlyExisting name 0 s.entries s.sources).entries := entries_count _ _
  have hsources : (Session.find onlyExisting name s).2.sources =
      (consult s.tree onlyExisting name 0 s.entries s.sources).sources := sources_count _ _
  have htree := tree_find onlyExisting name s
  rw [h.tree] at hentries hsources htree
  exact ⟨htree, hsources ▸ halone, hentries ▸ hsources ▸ hreads⟩

theorem Honors.ask (h : s.Honors d) (q : Question) : (ask q s).2.Honors d :=
  ask_keeps Honors.find (fun hs _ _ => ⟨hs.tree, hs.alone, hs.reads⟩) h q

/-- A turn agrees with the declaration if it adds no other class of the name. -/
theorem Honors.respond (h : s.Honors d) (hsound : s.Sound) (turn : Turn)
    (hhost : ∀ u ∈ addedByHost turn s, ∀ c ∈ u.classes, c.fullName ≠ d.name) :
    (respond turn s).2.Honors d := by
  by_cases hask : ∃ q, turn = .ask q
  · obtain ⟨q, rfl⟩ := hask
    exact h.ask q
  have hadds := (asks_or_adds turn s).resolve_left hask
  obtain ⟨_, hleads⟩ := hsound.respond turn
  refine ⟨hleads.tree.trans h.tree, fun c hc hname => ?_, fun e he => ?_⟩
  · obtain ⟨u, hu, hc⟩ := List.mem_flatMap.mp hc
    rcases mem_addedByHost hleads (fun q hq => hask ⟨q, hq⟩) hu with hu | hu
    · exact h.alone c (List.mem_flatMap.mpr ⟨u, hu, hc⟩) hname
    · exact absurd hname (hhost u hu c hc)
  · rw [hadds.entries] at he
    obtain ⟨hdisk, hnoted⟩ := h.reads e he
    exact ⟨hdisk, hnoted.mono hleads.sources⟩

/-- So does a dialogue. -/
theorem Honors.converse (h : s.Honors d) (hsound : s.Sound) (ts : List Turn)
    (hhost : ∀ u ∈ hosted s ts, ∀ c ∈ u.classes, c.fullName ≠ d.name) :
    (converse ts s).2.Honors d := by
  induction ts generalizing s with
  | nil => exact h
  | cons turn ts ih =>
    obtain ⟨hturn, hrest⟩ := List.forall_mem_append.mp hhost
    rw [Session.converse, List.mapM_cons, bind_apply, bind_apply]
    exact ih (h.respond hsound turn hturn) (hsound.respond turn).1 hrest

/-! ### The library that the options ask for -/

/-- The chain that options ask for: the units of the session, and the registry, the source roots and
the stub if there are to be any. -/
theorem mem_strategies_standard {options : SessionOptions} {strategy : Strategy} :
    strategy ∈ (standard options tree).entries.map (·.strategy) ↔
      strategy = .parsedSources ∨ (options.hasJavaLang ∧ strategy = .registry JavaLang.registry) ∨
        (options.sourceRoots ≠ [] ∧ strategy = .sourceRoots
          (options.sourceRoots.map fun root => .directory root options.extension)) ∨
        (options.hasStub ∧ strategy = .stub) := by
  obtain ⟨extension, packages, goOn, hasJavaLang, hasStub, roots⟩ := options
  have hchain : (standard ⟨extension, packages, goOn, hasJavaLang, hasStub, roots⟩ tree).entries.map
      (·.strategy) =
        [.parsedSources] ++ (if hasJavaLang then [.registry JavaLang.registry] else []) ++
          (if roots.isEmpty then [] else
            [.sourceRoots (roots.map fun root => .directory root extension)]) ++
          (if hasStub then [.stub] else []) := by
    cases roots <;> cases hasJavaLang <;> cases hasStub <;> rfl
  rw [hchain]
  cases roots <;> cases hasJavaLang <;> cases hasStub <;> simp

theorem honors_standard (options : SessionOptions) (d : Declaration tree) :
    (standard options tree).Honors d := by
  refine ⟨rfl, fun c hc => absurd hc List.not_mem_nil, fun e he => ⟨?_, fun htried => ?_⟩⟩
  · have hstrategy : e.strategy ∈ (standard options tree).entries.map (·.strategy) :=
      List.mem_map_of_mem he
    rcases mem_strategies_standard.mp hstrategy with h | ⟨_, h⟩ | ⟨_, h⟩ | ⟨_, h⟩ <;> rw [h]
    · rfl
    · rfl
    · simp [Strategy.isOnDisk, Locator.isDirectory]
    · rfl
  · obtain ⟨strategy, _, rfl⟩ := List.mem_map.mp he
    exact absurd htried List.not_mem_nil

/-! ### Classes below source roots -/

/-- In a session with the library that its options ask for, a class that stands below a source root
where convention has it is found, whatever has been said before, unless the host has added a class
of its name or the registry has one: it is the class of its file, and it is said to exist. -/
theorem finds_conventional {options : SessionOptions} (d : Declaration tree) {root : FilePath}
    (hroot : root ∈ options.sourceRoots) (hextension : options.extension ≠ "")
    (hplaced : d.IsConventional root options.extension)
    (hregistry : options.hasJavaLang → JavaLang.registry.find? d.name = none) (ts : List Turn)
    (hhost : ∀ u ∈ hosted (standard options tree) ts, ∀ c ∈ u.classes, c.fullName ≠ d.name) :
    let t := (converse ts (standard options tree)).2
    (∃ a, (classNamed d.name t).1 = some a ∧ d.Is a.found) ∧ (hasClass d.name t).1 = true := by
  intro t
  have hreachable : t.Reachable := ⟨options, tree, options.parts, ts, rfl⟩
  have hstart : (standard options tree).Sound := sound_start options tree options.parts
  obtain ⟨hsound, hleads⟩ := hstart.converse ts
  have hhonors : t.Honors d := (honors_standard options d).converse hstart ts hhost
  have hmem {x : Strategy} (hx : x ∈ (standard options tree).entries.map (·.strategy)) :
      x ∈ t.entries.map (·.strategy) := hleads.strategies ▸ hx
  have hparsed := hmem (mem_strategies_standard.mpr (.inl rfl))
  have hroots := hmem (mem_strategies_standard.mpr
    (.inr (.inr (.inl ⟨List.ne_nil_of_mem hroot, rfl⟩))))
  have hfaithful : ∀ e ∈ t.entries, e.Faithful tree t.sources := hhonors.tree ▸ hsound.entries
  have hfind : (find true d.name t).1 =
      (consult t.tree true d.name 0 t.entries t.sources).answer := rfl
  rw [hhonors.tree] at hfind
  obtain ⟨a, ha⟩ : ∃ a, (find true d.name t).1 = some a := by
    rw [hfind, ← Option.isSome_iff_exists]
    exact hplaced.isSome_answer hextension hfaithful hsound.sources hreachable.isFilled
      hhonors.alone hhonors.reads hparsed hroots (List.mem_map_of_mem hroot) 0
  obtain ⟨hreal, made, hanswer, _⟩ := hreachable.answers d.name
  refine ⟨⟨a, by rw [hanswer, ha, Option.some_or], ?_⟩, congrArg Option.isSome ha⟩
  refine Declaration.is_of_consult hfaithful hreachable.isFilled hhonors.alone hhonors.reads
    (fun r hr => ?_) (hfind ▸ ha) (hreal a ha)
  rw [hleads.strategies] at hr
  rcases mem_strategies_standard.mp hr with h | ⟨hlang, h⟩ | ⟨_, h⟩ | ⟨_, h⟩
  · cases h
  · rw [Strategy.registry.inj h]
    exact hregistry hlang
  · cases h
  · cases h

def nestedText : String := "package p; class A \x7b class B \x7b\x7d \x7d"

/-- A class inside another, in the file of this one. -/
def nested : FileTree := (FileTree.empty ⟨"/r"⟩).write ⟨"src/p/A.java"⟩ nestedText.toUTF8

def nestedFile : FilePath := ⟨"/r/src/p/A.java"⟩

theorem locate_nested : nested.locate nestedFile = .ok (.below ["src", "p", "A.java"]) := by
  rw [FileTree.locate_eq_follow] <;> decide +kernel

theorem read_nested : nested.read nestedFile = .ok nestedText :=
  FileTree.read_below locate_nested (by decide +kernel)

theorem files_nested : nested.files.map Prod.fst = [["src", "p", "A.java"]] := by
  decide +kernel

/-- The inner class. -/
def inner : Declaration nested :=
  .ofSole files_nested nestedFile nestedText read_nested (by decide +kernel) ⟨1⟩
    (by decide +kernel) (by decide +kernel)

theorem finds_conventional_inner :
    let options : SessionOptions := { SessionOptions.standard with sourceRoots := [⟨"/r/src"⟩] }
    let ts : List Turn := [.ask (.hasClass "p.A.C"), .ask (.classNamed "p.A")]
    let t := (converse ts (standard options nested)).2
    inner.name = "p.A.B" ∧ (⟨"/r/src"⟩ ∈ options.sourceRoots ∧ options.extension ≠ "" ∧
      inner.IsConventional ⟨"/r/src"⟩ options.extension ∧
      (options.hasJavaLang → JavaLang.registry.find? inner.name = none) ∧
      ∀ u ∈ hosted (standard options nested) ts, ∀ c ∈ u.classes, c.fullName ≠ inner.name) ∧
    (∃ a, (classNamed inner.name t).1 = some a ∧ inner.Is a.found) ∧
      (hasClass inner.name t).1 = true := by
  intro options ts t
  have hname : inner.name = "p.A.B" := by
    decide +kernel
  have hroot : ⟨"/r/src"⟩ ∈ options.sourceRoots := List.mem_singleton_self _
  have hextension : options.extension ≠ "" := by
    decide
  have hplaced : inner.IsConventional ⟨"/r/src"⟩ options.extension := by
    decide +kernel
  have hregistry (_ : options.hasJavaLang) : JavaLang.registry.find? inner.name = none := by
    rw [hname]
    refine Option.isNone_iff_eq_none.mp ?_
    decide +kernel
  have hhost : ∀ u ∈ hosted (standard options nested) ts, ∀ c ∈ u.classes,
      c.fullName ≠ inner.name := fun u hu => absurd hu List.not_mem_nil
  exact ⟨hname, ⟨hroot, hextension, hplaced, hregistry, hhost⟩,
    finds_conventional inner hroot hextension hplaced hregistry ts hhost⟩

/-! ### An empty extension -/

def bareText : String := "class A \x7b\x7d"

/-- A class in a file whose name has a dot and no extension behind it. -/
def bare : FileTree := (FileTree.empty ⟨"/r"⟩).write ⟨"src/A."⟩ bareText.toUTF8

def bareFile : FilePath := ⟨"/r/src/A."⟩

theorem locate_bare : bare.locate bareFile = .ok (.below ["src", "A."]) := by
  rw [FileTree.locate_eq_follow] <;> decide +kernel

theorem read_bare : bare.read bareFile = .ok bareText :=
  FileTree.read_below locate_bare (by decide +kernel)

theorem files_bare : bare.files.map Prod.fst = [["src", "A."]] := by
  decide +kernel

/-- The class of the file. -/
def lone : Declaration bare :=
  .ofSole files_bare bareFile bareText read_bare (by decide +kernel) ⟨0⟩
    (by decide +kernel) (by decide +kernel)

/-- With an empty extension source roots look for a class in a file without an extension, and not in
the one whose name has the dot and nothing behind it. -/
theorem unfound_without_extension :
    let options : SessionOptions :=
      { SessionOptions.standard with extension := "", sourceRoots := [⟨"/r/src"⟩] }
    lone.IsConventional ⟨"/r/src"⟩ options.extension ∧
      (∀ p text, bare.read p = .ok text → bare.locate p = bare.locate lone.path) ∧
      lone.unit.classes.length = 1 ∧ JavaLang.registry.find? lone.name = none ∧
      (hasClass lone.name (standard options bare)).1 = false := by
  intro options
  have hname : lone.name = "A" := by
    decide +kernel
  have hregistry : JavaLang.registry.find? "A" = none := by
    refine Option.isNone_iff_eq_none.mp ?_
    decide +kernel
  have hcandidates : (Locator.directory ⟨"/r/src"⟩ "").candidates bare "A" = [] := by
    have hpaths : (candidatePaths "A" "").map (FilePath.join ⟨"/r/src"⟩) = [⟨"/r/src/A"⟩] := by
      decide +kernel
    have hnone : bare.locate ⟨"/r/src/A"⟩ = .error .notFound := by
      rw [FileTree.locate_eq_follow] <;> decide +kernel
    unfold Locator.candidates
    dsimp only
    rw [hpaths]
    simp [FileTree.hasFile, hnone]
  refine ⟨by decide +kernel, fun p text hread => ?_, by decide +kernel, hname ▸ hregistry, ?_⟩
  · exact (FileTree.locate_of_sole files_bare hread).trans
      (FileTree.locate_of_sole files_bare lone.read).symm
  · have hfiles : Locator.filesFor [.directory ⟨"/r/src"⟩ ""] bare "A" = [] := by
      rw [Locator.filesFor, List.flatMap_singleton, hcandidates]
      rfl
    have hsearched : Loading.search bare "A" (Locator.filesFor [.directory ⟨"/r/src"⟩ ""] bare "A")
        ⟨.empty, []⟩ = ⟨.empty, []⟩ := by
      rw [hfiles]
      rfl
    have hasked := (hasClass_fresh (s := standard options bare) rfl rfl hregistry).1
    rw [hname]
    exact hasked.trans (congrArg (fun l => (l.sources.class? "A").isSome) hsearched)

end Session

end JavaModel
