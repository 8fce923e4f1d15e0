import JavaModel.Proofs.FileTree
import JavaModel.Proofs.Session.Regular

/-! Files that source roots read because of a question. Whatever is asked, none of them is read
twice, since the source roots list every file that they try. They do not list the files that a host
adds, and so may read such a file once again. -/

namespace JavaModel

/-- Files were tried, each for the first time, and the units added are those of some of them. -/
def Reads (tried tried' : List (List FilePath.Component)) (us us' : List SourceUnit) : Prop :=
  ∃ fresh more, tried' = tried ++ fresh ∧ us' = us ++ more ∧
    (more.map fun u => u.path.components).Sublist fresh ∧ (tried.Nodup → tried'.Nodup)

section

variable {tried tried' : List (List FilePath.Component)} {us us' us'' : List SourceUnit}

theorem Reads.refl (tried : List (List FilePath.Component)) (us : List SourceUnit) :
    Reads tried tried us us :=
  ⟨[], [], (List.append_nil _).symm, (List.append_nil _).symm, .slnil, id⟩

theorem Reads.trans {tried'' : List (List FilePath.Component)} (h : Reads tried tried' us us')
    (h' : Reads tried' tried'' us' us'') : Reads tried tried'' us us'' := by
  obtain ⟨fresh, more, rfl, rfl, hsub, hnodup⟩ := h
  obtain ⟨fresh', more', rfl, rfl, hsub', hnodup'⟩ := h'
  refine ⟨fresh ++ fresh', more ++ more', List.append_assoc .., List.append_assoc .., ?_,
    hnodup' ∘ hnodup⟩
  rw [List.map_append]
  exact hsub.append hsub'

/-- What was read is read, whatever units there were before. -/
theorem Reads.behind (h : Reads tried tried' us us') (us'' : List SourceUnit) :
    Reads tried tried' us'' (us'' ++ us'.drop us.length) := by
  obtain ⟨fresh, more, hfresh, rfl, hrest⟩ := h
  exact ⟨fresh, more, hfresh, by rw [List.drop_left], hrest⟩

/-- Where nothing was tried nothing was read. -/
theorem Reads.units_eq (h : Reads tried tried us us') : us' = us := by
  obtain ⟨fresh, more, hfresh, rfl, hsub, _⟩ := h
  obtain rfl : fresh = [] := List.append_right_eq_self.mp hfresh.symm
  obtain rfl : more = [] := List.map_eq_nil_iff.mp (List.sublist_nil.mp hsub)
  exact List.append_nil us

end

/-! ### Source roots -/

namespace Loading

theorem reads_attempt {l : Loading} {p : FilePath} (hnew : p.components ∉ l.attempted)
    (tree : FileTree) (locator : Locator) :
    let l' := (l.attempt tree locator p).1
    Reads l.attempted l'.attempted l.sources.units l'.sources.units := by
  intro l'
  have hnodup (h : l.attempted.Nodup) : (l.attempted ++ [p.components]).Nodup :=
    List.nodup_append_comm.mp (List.nodup_cons.mpr ⟨hnew, h⟩)
  have htried : l'.attempted = l.attempted ++ [p.components] := attempted_attempt l tree locator p
  have hunits : l'.sources.units = l.sources.units ∨
      ∃ u : SourceUnit, u.path = p ∧ l'.sources.units = l.sources.units ++ [u] := by
    unfold l' attempt
    dsimp only
    split
    · exact .inl rfl
    · split
      · exact .inl rfl
      · rename_i u hu
        exact .inr ⟨u, SourceUnit.path_ofText hu, rfl⟩
  rw [← htried] at hnodup
  obtain hsame | ⟨u, rfl, hadded⟩ := hunits
  · exact ⟨_, [], htried, hsame.trans (List.append_nil _).symm, List.nil_sublist _, hnodup⟩
  · exact ⟨_, [u], htried, hadded, List.Sublist.refl _, hnodup⟩

theorem reads_search (tree : FileTree) (name : String) (files : List (Locator × FilePath))
    (l : Loading) :
    let l' := search tree name files l
    Reads l.attempted l'.attempted l.sources.units l'.sources.units := by
  induction files generalizing l with
  | nil => exact .refl _ _
  | cons f files ih =>
    obtain ⟨locator, p⟩ := f
    unfold search
    split
    · exact ih l
    · rename_i hnew
      have hfirst := reads_attempt (fun h => hnew (List.contains_iff_mem.mpr h)) tree locator
      dsimp only
      split
      · exact hfirst
      · exact hfirst.trans (ih _)

end Loading

/-! ### Chains -/

/-- The strategy reads files. -/
def Strategy.readsFiles : Strategy → Bool
  | .sourceRoots _ => true
  | _ => false

def ChainEntry.readsFiles (e : ChainEntry) : Bool := e.strategy.readsFiles

/-- The files that the first source roots of a chain have tried. -/
def tried (es : List ChainEntry) : List (List FilePath.Component) :=
  ((es.find? ChainEntry.readsFiles).map (·.attempted)).getD []

/-- The chain has source roots once at most. -/
def SoleReader (es : List ChainEntry) : Prop := es.countP ChainEntry.readsFiles ≤ 1

instance (es : List ChainEntry) : Decidable (SoleReader es) := inferInstanceAs (Decidable (_ ≤ 1))

section

variable {e e' : ChainEntry} {es es' : List ChainEntry} {us us' us'' : List SourceUnit}

theorem tried_cons_reader (h : e.readsFiles) : tried (e :: es) = e.attempted := by
  rw [tried, List.find?_cons_of_pos h]
  rfl

theorem tried_cons_other (h : ¬ e.readsFiles) : tried (e :: es) = tried es := by
  rw [tried, List.find?_cons_of_neg h]
  rfl

theorem tried_none (h : es.countP ChainEntry.readsFiles = 0) : tried es = [] := by
  have hnone : es.find? ChainEntry.readsFiles = none :=
    List.find?_eq_none.mpr (List.countP_eq_zero.mp h)
  rw [tried, hnone]
  rfl

theorem readers_congr (h : es'.map (·.strategy) = es.map (·.strategy)) :
    es'.countP ChainEntry.readsFiles = es.countP ChainEntry.readsFiles := by
  have hcount (es : List ChainEntry) : es.countP ChainEntry.readsFiles =
      (es.map (·.strategy)).countP Strategy.readsFiles := by
    rw [List.countP_map]
    rfl
  rw [hcount, hcount, h]

/-- What asking an entry does to it and to the units. -/
structure EntryReads (e e' : ChainEntry) (us us' : List SourceUnit) : Prop where
  strategy : e'.strategy = e.strategy
  reads : Reads e.attempted e'.attempted us us'
  idle : ¬ e.readsFiles → e'.attempted = e.attempted

/-- What asking a chain does to it and to the units. -/
structure ChainReads (es es' : List ChainEntry) (us us' : List SourceUnit) : Prop where
  strategies : es'.map (·.strategy) = es.map (·.strategy)
  reads : Reads (tried es) (tried es') us us'

theorem EntryReads.readsFiles (h : EntryReads e e' us us') : e'.readsFiles = e.readsFiles :=
  congrArg Strategy.readsFiles h.strategy

theorem EntryReads.refl (e : ChainEntry) (us : List SourceUnit) : EntryReads e e us us :=
  ⟨rfl, .refl _ _, fun _ => rfl⟩

theorem ChainReads.refl (es : List ChainEntry) (us : List SourceUnit) : ChainReads es es us us :=
  ⟨rfl, .refl _ _⟩

theorem ChainReads.cons (he : EntryReads e e' us us') (hes : ChainReads es es' us' us'')
    (hsole : SoleReader (e :: es)) : ChainReads (e :: es) (e' :: es') us us'' := by
  refine ⟨by rw [List.map_cons, List.map_cons, he.strategy, hes.strategies], ?_⟩
  by_cases hreads : e.readsFiles
  · -- The rest of the chain reads nothing.
    have hnone : es.countP ChainEntry.readsFiles = 0 := by
      unfold SoleReader at hsole
      rw [List.countP_cons_of_pos hreads] at hsole
      omega
    have hrest := hes.reads
    rw [tried_none hnone, tried_none ((readers_congr hes.strategies).trans hnone)] at hrest
    rw [hrest.units_eq, tried_cons_reader hreads, tried_cons_reader (he.readsFiles ▸ hreads)]
    exact he.reads
  · have hfirst := he.reads
    rw [he.idle hreads] at hfirst
    rw [tried_cons_other hreads, tried_cons_other (he.readsFiles ▸ hreads), ← hfirst.units_eq]
    exact hes.reads

end

namespace ChainEntry

theorem reads_ask (e : ChainEntry) (tree : FileTree) (sources : SourceSet) (name : String)
    (answer : Option Class) :
    EntryReads e ((e.ask tree sources name).2.1.keep name answer) sources.units
      (e.ask tree sources name).2.2.units := by
  have hstrategy : ((e.ask tree sources name).2.1.keep name answer).strategy = e.strategy :=
    (strategy_keep ..).trans (ask_asks e tree sources name).strategy
  refine ⟨hstrategy, ?_, ?_⟩ <;> rw [attempted_keep]
  · cases h : e.strategy with
    | parsedSources => rw [ask_parsedSources h]; exact .refl _ _
    | registry r => rw [ask_registry h]; exact .refl _ _
    | sourceRoots locators =>
      rw [ask_sourceRoots h]
      exact Loading.reads_search tree name (Locator.filesFor locators tree name)
        ⟨sources, e.attempted⟩
    | stub => rw [ask_stub h]; exact .refl _ _
  · intro hreads
    cases h : e.strategy with
    | parsedSources => rw [ask_parsedSources h]
    | registry r => rw [ask_registry h]
    | sourceRoots locators =>
      rw [readsFiles, h] at hreads
      exact absurd rfl hreads
    | stub => rw [ask_stub h]

end ChainEntry

theorem SoleReader.tail {e : ChainEntry} {es : List ChainEntry} (h : SoleReader (e :: es)) :
    SoleReader es :=
  Nat.le_trans (List.Sublist.countP_le (List.sublist_cons_self e es)) h

theorem Responds.reads {tree : FileTree} {onlyExisting : Bool} {name : String} {e e' : ChainEntry}
    {sources sources' : SourceSet} {answer : Option Class}
    (h : Responds tree onlyExisting name e sources answer e' sources') :
    EntryReads e e' sources.units sources'.units := by
  cases h with
  | skipped | found | absent => exact .refl e _
  | asked => exact e.reads_ask tree sources name answer

theorem reads_consult (tree : FileTree) (onlyExisting : Bool) (name : String) (position : Nat)
    {es : List ChainEntry} (hsole : SoleReader es) (sources : SourceSet) :
    let r := consult tree onlyExisting name position es sources
    ChainReads es r.entries sources.units r.sources.units :=
  consult_induction (motive := fun _ es sources r =>
    SoleReader es → ChainReads es r.entries sources.units r.sources.units)
    (fun _ _ _ => .refl _ _) (fun _ h ih hsole => .cons h.reads (ih hsole.tail) hsole)
    (fun _ h hsole => .cons h.reads (.refl _ _) hsole) position es sources hsole

/-! ### Dialogues -/

namespace Session

variable {s t : Session}

/-- The session has source roots once at most, and what it has read since is read once. -/
structure ReadSince (s t : Session) : Prop where
  sole : SoleReader t.entries
  reads : Reads (tried s.entries) (tried t.entries) s.sources.units t.sources.units

theorem reads_ask (hs : SoleReader s.entries) (q : Question) : ReadSince s (ask q s).2 := by
  have hfind {t : Session} (ht : ReadSince s t) (onlyExisting : Bool) (name : String) :
      ReadSince s (find onlyExisting name t).2 := by
    have hconsult := reads_consult t.tree onlyExisting name 0 ht.sole t.sources
    have hentries : (find onlyExisting name t).2.entries =
        (consult t.tree onlyExisting name 0 t.entries t.sources).entries := entries_count _ _
    have hsources : (find onlyExisting name t).2.sources =
        (consult t.tree onlyExisting name 0 t.entries t.sources).sources := sources_count _ _
    refine ⟨?_, ?_⟩
    · rw [hentries, SoleReader, readers_congr hconsult.strategies]
      exact ht.sole
    · rw [hentries, hsources]
      exact ht.reads.trans hconsult.reads
  -- A question only looks for classes and records meanings.
  have hcongruent := congruent_self (P := ReadSince s) hfind fun ht _ _ => ⟨ht.sole, ht.reads⟩
  exact (hcongruent.relates_ask q (fun _ => trivial) s s ⟨rfl, hs, .refl _ _⟩).2.2

/-- The units that a turn adds if it is a question. -/
def addedOnDemand (turn : Turn) (s : Session) : List SourceUnit :=
  match turn with
  | .ask q => (ask q s).2.sources.units.drop s.sources.units.length
  | _ => []

/-- The units that the questions of a dialogue add. -/
def onDemand (s : Session) : List Turn → List SourceUnit
  | [] => []
  | turn :: ts => addedOnDemand turn s ++ onDemand (respond turn s).2 ts

theorem reads_respond (hs : SoleReader s.entries) (turn : Turn) :
    SoleReader (respond turn s).2.entries ∧
      Reads (tried s.entries) (tried (respond turn s).2.entries) [] (addedOnDemand turn s) := by
  have hother (h : (respond turn s).2.entries = s.entries) (hadded : addedOnDemand turn s = []) :
      SoleReader (respond turn s).2.entries ∧
        Reads (tried s.entries) (tried (respond turn s).2.entries) [] (addedOnDemand turn s) := by
    rw [h, hadded]
    exact ⟨hs, .refl _ _⟩
  cases turn with
  | ask q =>
    obtain ⟨hsole, hasked⟩ := reads_ask hs q
    exact ⟨hsole, hasked.behind []⟩
  | add x => exact hother (adds_addSource x s).entries rfl
  | addTree numbering dir =>
    refine hother ?_ rfl
    change ((if s.Numbers dir numbering then _ else _ : Query Reply) s).2.entries = _
    split
    · exact (adds_loadTree numbering.order dir s).entries
    · exact (adds_loadTree id dir s).entries

theorem reads_onDemand (hs : SoleReader s.entries) (ts : List Turn) :
    Reads (tried s.entries) (tried (converse ts s).2.entries) [] (onDemand s ts) := by
  induction ts generalizing s with
  | nil => exact .refl _ _
  | cons turn ts ih =>
    obtain ⟨hsole, hfirst⟩ := reads_respond hs turn
    rw [converse, List.mapM_cons, bind_apply, bind_apply, onDemand]
    exact hfirst.trans ((ih hsole).behind (addedOnDemand turn s))

theorem tried_fresh (strategies : List Strategy) : tried (strategies.map .fresh) = [] := by
  induction strategies with
  | nil => rfl
  | cons strategy strategies ih =>
    by_cases hreads : (ChainEntry.fresh strategy).readsFiles
    · exact tried_cons_reader hreads
    · exact (tried_cons_other hreads).trans ih

theorem soleReader_standard (options : SessionOptions) (tree : FileTree) :
    SoleReader (standard options tree).entries := by
  obtain ⟨extension, packages, goOn, hasJavaLang, hasStub, roots⟩ := options
  -- The options add source roots once, and only if they name some.
  cases roots <;> cases hasJavaLang <;> cases hasStub <;> exact of_decide_eq_true rfl

/-- In a session with the library that its options ask for, no two questions have one file read. -/
theorem onDemand_once (options : SessionOptions) (tree : FileTree) (ts : List Turn) :
    ((onDemand (standard options tree) ts).map fun u => u.path.components).Nodup := by
  obtain ⟨fresh, more, hfresh, hmore, hsub, hnodup⟩ :=
    reads_onDemand (soleReader_standard options tree) ts
  have hnothing : tried (standard options tree).entries = [] := tried_fresh _
  rw [hnothing] at hfresh hnodup
  rw [hfresh] at hnodup
  rw [hmore]
  exact (hnodup .nil).sublist hsub

/-! ### Files that a host adds -/

/-- A name that neither the units nor the registry know is searched for below the source roots. -/
theorem hasClass_fresh {name : String} {r : Registry} {ls : List Locator}
    (hentries : s.entries = [.fresh .parsedSources, .fresh (.registry r), .fresh (.sourceRoots ls)])
    (hunknown : s.sources.class? name = none) (hregistry : r.find? name = none) :
    let searched := Loading.search s.tree name (Locator.filesFor ls s.tree name) ⟨s.sources, []⟩
    (hasClass name s).1 = (searched.sources.class? name).isSome ∧
      (hasClass name s).2.sources = searched.sources := by
  intro searched
  have hskips (strategy : Strategy) (h : strategy.isAuthoritative) :
      ¬ Skips true (.fresh strategy) := by
    simp [Skips, ChainEntry.fresh, h]
  have hnew (strategy : Strategy) : (ChainEntry.fresh strategy).remembered name = .unknown := rfl
  have hunits : (ChainEntry.fresh .parsedSources).ask s.tree s.sources name =
      (none, .fresh .parsedSources, s.sources) := by
    rw [ChainEntry.ask_parsedSources rfl, hunknown]
  have hregistered : (ChainEntry.fresh (.registry r)).ask s.tree s.sources name =
      (none, .fresh (.registry r), s.sources) := by
    rw [ChainEntry.ask_registry rfl, hregistry]
    rfl
  change (consult s.tree true name 0 s.entries s.sources).answer.isSome = _ ∧
    (count _ _).sources = _
  rw [sources_count, hentries, consult_missed (hskips _ rfl) (hnew _) hunits,
    consult_missed (hskips _ rfl) (hnew _) hregistered]
  have hsearched : (ChainEntry.fresh (.sourceRoots ls)).ask s.tree s.sources name =
      (searched.sources.class? name, { ChainEntry.fresh (.sourceRoots ls) with
        attempted := searched.attempted }, searched.sources) := ChainEntry.ask_sourceRoots rfl
  cases hclass : searched.sources.class? name with
  | none =>
    rw [hclass] at hsearched
    rw [consult_missed (hskips _ rfl) (hnew _) hsearched]
    exact ⟨rfl, rfl⟩
  | some c =>
    rw [hclass] at hsearched
    rw [consult_answered (hskips _ rfl) (hnew _) hsearched]
    exact ⟨rfl, rfl⟩

/-- A search adds the unit of a file that it tries, whatever units there are. -/
theorem units_search_one {l : Loading} {locator : Locator} {p : FilePath} {text : String}
    {u : SourceUnit} {tree : FileTree} (name : String) (hnew : p.components ∉ l.attempted)
    (hread : locator.read tree p = .ok text)
    (hunit : SourceUnit.ofText ⟨l.sources.nextId⟩ p text = .ok u) :
    (Loading.search tree name [(locator, p)] l).sources.units = l.sources.units ++ [u] := by
  have hattempt : l.attempt tree locator p =
      (⟨(l.sources.reserveId.2.insert u).1, l.attempted ++ [p.components]⟩, true) := by
    have hunit' : SourceUnit.ofText l.sources.reserveId.1 p text = .ok u := hunit
    simp only [Loading.attempt, hread, hunit']
  unfold Loading.search
  rw [if_neg fun h => hnew (List.contains_iff_mem.mp h)]
  simp only [hattempt]
  split <;> rfl

theorem state_addFile {p : FilePath} {text : String} {u : SourceUnit}
    (hread : s.tree.read p = .ok text)
    (hunit : SourceUnit.ofText ⟨s.sources.nextId⟩ p text = .ok u) :
    (addFile p s).2 = { s with sources := (s.sources.reserveId.2.insert u).1 } := by
  have hunit' : SourceUnit.ofText (reserveId s).1 p text = .ok u := hunit
  rw [addFile_readable hread, addText, bind_apply, hunit']
  rfl

/-- A file that a host has added is read again when it may declare a class and does not. -/
theorem hosted_read_again {name : String} {r : Registry} {l : Locator} {p : FilePath}
    {text : String} {u v : SourceUnit}
    (hentries : s.entries = [.fresh .parsedSources, .fresh (.registry r), .fresh (.sourceRoots [l])])
    (hread : s.tree.read p = .ok text) (hlocator : l.read s.tree p = .ok text)
    (hcandidates : l.candidates s.tree name = [p])
    (hunit : SourceUnit.ofText ⟨s.sources.nextId⟩ p text = .ok u)
    (hagain : SourceUnit.ofText ⟨s.sources.nextId + 1⟩ p text = .ok v)
    (hunknown : (s.sources.reserveId.2.insert u).1.class? name = none)
    (hregistry : r.find? name = none) :
    let t := (addFile p s).2
    ∃ u ∈ t.sources.units,
      ∃ v ∈ (hasClass name t).2.sources.units.drop t.sources.units.length, v.path = u.path := by
  intro t
  have ht : t = { s with sources := (s.sources.reserveId.2.insert u).1 } :=
    state_addFile hread hunit
  have hunits : t.sources.units = s.sources.units ++ [u] := by
    rw [ht]
    rfl
  have hfiles : Locator.filesFor [l] s.tree name = [(l, p)] := by
    rw [Locator.filesFor, List.flatMap_singleton, hcandidates]
    rfl
  have hsearched : (hasClass name t).2.sources.units = t.sources.units ++ [v] := by
    have hasked := @hasClass_fresh t name r [l]
    rw [ht] at hasked ⊢
    rw [(hasked hentries hunknown hregistry).2, hfiles]
    exact units_search_one name List.not_mem_nil hlocator hagain
  refine ⟨u, ?_, v, ?_, ?_⟩
  · rw [hunits]
    exact List.mem_append_right _ (List.mem_singleton_self u)
  · rw [hsearched, List.drop_left]
    exact List.mem_singleton_self v
  · rw [SourceUnit.path_ofText hunit, SourceUnit.path_ofText hagain]

def rootedText : String := "package p; class A \x7b\x7d"

/-- A class in the directory of its package, below a source root. -/
def rooted : FileTree := (FileTree.empty ⟨"/r"⟩).write ⟨"src/p/A.java"⟩ rootedText.toUTF8

def rootedFile : FilePath := ⟨"/r/src/p/A.java"⟩

def rootedOptions : SessionOptions := { SessionOptions.standard with sourceRoots := [⟨"/r/src"⟩] }

theorem locate_rooted : rooted.locate rootedFile = .ok (.below ["src", "p", "A.java"]) := by
  rw [FileTree.locate_eq_follow] <;> decide +kernel

theorem read_rooted : rooted.read rootedFile = .ok rootedText :=
  FileTree.read_below locate_rooted (by decide +kernel)

/-- A class inside the class may be in no other file. -/
theorem candidates_rooted :
    (Locator.directory ⟨"/r/src"⟩ "java").candidates rooted "p.A.B" = [rootedFile] := by
  have hpaths : (candidatePaths "p.A.B" "java").map (FilePath.join ⟨"/r/src"⟩) =
      [⟨"/r/src/p/A/B.java"⟩, rootedFile, ⟨"/r/src/p.java"⟩] := by
    decide +kernel
  have hinner : rooted.locate ⟨"/r/src/p/A/B.java"⟩ = .error .notFound := by
    rw [FileTree.locate_eq_follow] <;> decide +kernel
  have houter : rooted.locate ⟨"/r/src/p.java"⟩ = .error .notFound := by
    rw [FileTree.locate_eq_follow] <;> decide +kernel
  have hfile : rooted.isFile ["src", "p", "A.java"] := by
    decide +kernel
  unfold Locator.candidates
  dsimp only
  rw [hpaths]
  simp [FileTree.hasFile, hinner, houter, locate_rooted, hfile]

theorem ofText_rooted (id : UnitId) :
    SourceUnit.ofText id rootedFile rootedText =
      .ok (.ofEvents id rootedFile (parse rootedText).events) := by
  have herror : (parse rootedText).error = none := by
    decide +kernel
  simp only [SourceUnit.ofText, herror]

theorem unknown_rooted : (SourceSet.empty.reserveId.2.insert (.ofEvents ⟨0⟩ rootedFile
    (parse rootedText).events)).1.class? "p.A.B" = none := by
  refine Option.isNone_iff_eq_none.mp ?_
  decide +kernel

theorem registry_rooted : JavaLang.registry.find? "p.A.B" = none := by
  refine Option.isNone_iff_eq_none.mp ?_
  decide +kernel

/-- A host adds a file, a question for a class that is not in it has the file read again, and the
session has two units of one path. -/
theorem rooted_read_again :
    let s := (addFile rootedFile (standard rootedOptions rooted)).2
    rootedFile ∈ (Locator.directory ⟨"/r/src"⟩ "java").candidates rooted "p.A.B" ∧
      ∃ u ∈ s.sources.units,
        ∃ v ∈ (hasClass "p.A.B" s).2.sources.units.drop s.sources.units.length, v.path = u.path :=
  ⟨candidates_rooted ▸ List.mem_singleton_self _,
    hosted_read_again rfl read_rooted read_rooted candidates_rooted (ofText_rooted ⟨0⟩)
      (ofText_rooted ⟨1⟩) unknown_rooted registry_rooted⟩

end Session

end JavaModel
