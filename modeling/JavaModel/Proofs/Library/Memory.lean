import JavaModel.Library.Chain
import JavaModel.Proofs.Library.Loading

/-! What the entries of a chain remember. An entry is faithful if asking its strategy again would
give what it remembers. Questions keep every entry faithful while the source set grows, and a
question to faithful entries has the answer that it has when they have forgotten everything. -/

namespace JavaModel

/-- Asking the strategy for the name gives the class, and changes no source set that has it. -/
def Strategy.Finds (sources : SourceSet) (name : String) (c : Class) : Strategy → Prop
  | .parsedSources | .sourceRoots _ => sources.class? name = some c
  | .registry r => (r.find? name).map ClassShape.toClass = some c
  | .stub => Name.isQualified name ∧ c = .stub name

namespace ChainEntry

/-- Asking the strategy for the name again gives nothing that is not among the units. -/
def Misses (tree : FileTree) (e : ChainEntry) (name : String) : Prop :=
  match e.strategy with
  | .parsedSources => False
  | .registry r => r.find? name = none
  | .sourceRoots locators =>
    ∀ f ∈ Locator.filesFor locators tree name, f.2.components ∈ e.attempted
  | .stub => ¬ Name.isQualified name

/-- What the entry remembers is what asking its strategy would give. -/
structure Faithful (tree : FileTree) (sources : SourceSet) (e : ChainEntry) : Prop where
  found : ∀ name c, e.found.find? name = some c → e.strategy.Finds sources name c
  absent : ∀ name ∈ e.absent, e.Misses tree name

/-- The entry with its memory emptied. The files that it has tried stay tried. -/
def forget (e : ChainEntry) : ChainEntry := { e with found := .empty, absent := [] }

variable {tree : FileTree} {sources sources' : SourceSet} {e : ChainEntry} {name : String}

theorem faithful_fresh (strategy : Strategy) : (fresh strategy).Faithful tree sources := by
  refine ⟨fun name c h => ?_, fun name h => ?_⟩
  · simp [fresh] at h
  · simp [fresh] at h

theorem Faithful.mono (h : e.Faithful tree sources) (hgrows : sources.Grows sources') :
    e.Faithful tree sources' := by
  refine ⟨fun name c hc => ?_, h.absent⟩
  have hfinds := h.found name c hc
  revert hfinds
  unfold Strategy.Finds
  cases e.strategy with
  | parsedSources | sourceRoots locators => exact hgrows.class?
  | registry r => exact id
  | stub => exact id

@[simp] theorem remembered_forget (e : ChainEntry) (name : String) :
    e.forget.remembered name = .unknown := rfl

theorem remembered_found {c : Class} (h : e.remembered name = .found c) :
    e.found.find? name = some c := by
  unfold remembered at h
  split at h
  · cases h
    assumption
  · split at h <;> cases h

theorem remembered_absent (h : e.remembered name = .absent) : name ∈ e.absent := by
  unfold remembered at h
  split at h
  · cases h
  · split at h
    · exact List.contains_iff_mem.mp ‹_›
    · cases h

/-! ### Asking -/

/-- What source roots have done once they have searched for the name. -/
def searched (e : ChainEntry) (locators : List Locator) (tree : FileTree) (sources : SourceSet)
    (name : String) : Loading :=
  Loading.search tree name (Locator.filesFor locators tree name) ⟨sources, e.attempted⟩

theorem ask_parsedSources (h : e.strategy = .parsedSources) :
    e.ask tree sources name = (sources.class? name, e, sources) := by
  simp only [ask, h]

theorem ask_registry {r : Registry} (h : e.strategy = .registry r) :
    e.ask tree sources name = ((r.find? name).map ClassShape.toClass, e, sources) := by
  simp only [ask, h]

theorem ask_sourceRoots {locators : List Locator} (h : e.strategy = .sourceRoots locators) :
    e.ask tree sources name =
      ((e.searched locators tree sources name).sources.class? name,
        { e with attempted := (e.searched locators tree sources name).attempted },
        (e.searched locators tree sources name).sources) := by
  simp only [ask, h, searched, Locator.filesFor]

theorem ask_stub (h : e.strategy = .stub) :
    e.ask tree sources name =
      (if Name.isQualified name then some (.stub name) else none, e, sources) := by
  simp only [ask, h]

/-- What asking does to the source set, and what it does not touch in the entry. -/
structure Asks (sources sources' : SourceSet) (e e' : ChainEntry) : Prop where
  grows : sources.Grows sources'
  valid : sources.Valid → sources'.Valid
  strategy : e'.strategy = e.strategy
  found : e'.found = e.found
  absent : e'.absent = e.absent
  attempted : e.attempted ⊆ e'.attempted

theorem ask_asks (e : ChainEntry) (tree : FileTree) (sources : SourceSet) (name : String) :
    Asks sources (e.ask tree sources name).2.2 e (e.ask tree sources name).2.1 := by
  have hsame : Asks sources sources e e :=
    ⟨.refl _, id, rfl, rfl, rfl, List.Subset.refl _⟩
  cases h : e.strategy with
  | parsedSources => rwa [ask_parsedSources h]
  | registry r => rwa [ask_registry h]
  | sourceRoots locators =>
    have hsearch := Loading.search_leads tree name (Locator.filesFor locators tree name)
      ⟨sources, e.attempted⟩
    rw [ask_sourceRoots h]
    exact ⟨hsearch.grows, hsearch.valid, rfl, rfl, rfl, hsearch.attempted⟩
  | stub => rwa [ask_stub h]

theorem Misses.mono {e' : ChainEntry} (h : e.Misses tree name)
    (hstrategy : e'.strategy = e.strategy) (hattempted : e.attempted ⊆ e'.attempted) :
    e'.Misses tree name := by
  unfold Misses at h ⊢
  rw [hstrategy]
  revert h
  cases e.strategy with
  | sourceRoots locators => exact fun h f hf => hattempted (h f hf)
  | _ => exact id

theorem Faithful.ask (h : e.Faithful tree sources) (name : String) :
    (e.ask tree sources name).2.1.Faithful tree (e.ask tree sources name).2.2 := by
  have hasks := ask_asks e tree sources name
  refine ⟨fun n c hc => ?_, fun n hn => ?_⟩
  · rw [hasks.found] at hc
    rw [hasks.strategy]
    exact (h.mono hasks.grows).found n c hc
  · rw [hasks.absent] at hn
    exact (h.absent n hn).mono hasks.strategy hasks.attempted

/-- A class that a strategy answers with is one that it finds. -/
theorem finds_of_ask {c : Class} (h : (e.ask tree sources name).1 = some c) :
    e.strategy.Finds (e.ask tree sources name).2.2 name c := by
  cases hstrategy : e.strategy with
  | parsedSources =>
    rw [ask_parsedSources hstrategy] at h ⊢
    exact h
  | registry r =>
    rw [ask_registry hstrategy] at h
    exact h
  | sourceRoots locators =>
    rw [ask_sourceRoots hstrategy] at h ⊢
    exact h
  | stub =>
    rw [ask_stub hstrategy] at h
    obtain ⟨hname, hc⟩ := Option.ite_none_right_eq_some.mp h
    exact ⟨hname, (Option.some.inj hc).symm⟩

/-- A strategy whose misses are final misses every name that it does not answer. -/
theorem misses_of_ask (hvalid : sources.Valid) (hcaches : e.strategy.cachesMisses)
    (h : (e.ask tree sources name).1 = none) : (e.ask tree sources name).2.1.Misses tree name := by
  unfold Misses
  rw [(ask_asks e tree sources name).strategy]
  cases hstrategy : e.strategy with
  | parsedSources =>
    rw [hstrategy] at hcaches
    cases hcaches
  | registry r =>
    rw [ask_registry hstrategy] at h
    exact Option.map_eq_none_iff.mp h
  | sourceRoots locators =>
    rw [ask_sourceRoots hstrategy] at h ⊢
    refine Loading.attempted_of_search ?_
    rw [((Loading.search_leads _ _ _ _).valid hvalid).contains_iff]
    exact (congrArg Option.isSome h).trans rfl
  | stub =>
    rw [ask_stub hstrategy] at h
    intro hname
    rw [if_pos hname] at h
    cases h

/-! ### Keeping -/

theorem strategy_keep (e : ChainEntry) (name : String) (answer : Option Class) :
    (e.keep name answer).strategy = e.strategy := by
  unfold keep
  split
  · rfl
  · split <;> rfl

theorem attempted_keep (e : ChainEntry) (name : String) (answer : Option Class) :
    (e.keep name answer).attempted = e.attempted := by
  unfold keep
  split
  · rfl
  · split <;> rfl

theorem Faithful.keep_some (h : e.Faithful tree sources) {c : Class}
    (hc : e.strategy.Finds sources name c) : (e.keep name (some c)).Faithful tree sources := by
  refine ⟨fun n d hd => ?_, h.absent⟩
  simp only [keep, Table.find?_record, Option.or_eq_some_iff] at hd
  obtain hd | ⟨_, hd⟩ := hd
  · exact h.found n d hd
  · obtain ⟨rfl, hcd⟩ := (Option.ite_none_right_eq_some).mp hd
    exact Option.some.inj hcd ▸ hc

theorem Faithful.keep_none (h : e.Faithful tree sources)
    (hmisses : e.strategy.cachesMisses → e.Misses tree name) :
    (e.keep name none).Faithful tree sources := by
  unfold keep
  dsimp only
  split
  · rename_i hcond
    obtain ⟨hcaches, _⟩ := (Bool.and_eq_true _ _).mp hcond
    refine ⟨h.found, fun n hn => ?_⟩
    rcases List.mem_append.mp hn with hn | hn
    · exact h.absent n hn
    · exact List.mem_singleton.mp hn ▸ hmisses hcaches
  · exact h

end ChainEntry

/-- Where the strategies are the same, each entry has one of the same strategy on the other side. -/
theorem exists_same_strategy {es es' : List ChainEntry} {e : ChainEntry}
    (h : es'.map (·.strategy) = es.map (·.strategy)) (he : e ∈ es) :
    ∃ e' ∈ es', e'.strategy = e.strategy := by
  have hmem : e.strategy ∈ es'.map (·.strategy) := h ▸ List.mem_map_of_mem he
  exact List.mem_map.mp hmem

/-! ### A question to a chain -/

open ChainEntry

variable {tree : FileTree} {sources sources' : SourceSet} {e e' : ChainEntry} {es : List ChainEntry}
  {onlyExisting : Bool} {name : String} {position : Nat} {c : Class}

/-- The question passes the entry over. -/
def Skips (onlyExisting : Bool) (e : ChainEntry) : Prop :=
  (onlyExisting && !e.strategy.isAuthoritative) = true

theorem consult_skipped (h : Skips onlyExisting e) :
    consult tree onlyExisting name position (e :: es) sources =
      { consult tree onlyExisting name (position + 1) es sources with
        entries := e :: (consult tree onlyExisting name (position + 1) es sources).entries } := by
  rw [consult, if_pos (show (onlyExisting && !e.strategy.isAuthoritative) = true from h)]

theorem consult_found (h : ¬ Skips onlyExisting e) (hr : e.remembered name = .found c) :
    consult tree onlyExisting name position (e :: es) sources =
      ⟨some ⟨position, c⟩, e :: es, sources, .hit⟩ := by
  rw [consult, if_neg (show ¬ (onlyExisting && !e.strategy.isAuthoritative) = true from h), hr]

theorem consult_absent (h : ¬ Skips onlyExisting e) (hr : e.remembered name = .absent) :
    consult tree onlyExisting name position (e :: es) sources =
      (consult tree onlyExisting name (position + 1) es sources).behind e false := by
  rw [consult, if_neg (show ¬ (onlyExisting && !e.strategy.isAuthoritative) = true from h), hr]

theorem consult_answered (h : ¬ Skips onlyExisting e) (hr : e.remembered name = .unknown)
    (hask : e.ask tree sources name = (some c, e', sources')) :
    consult tree onlyExisting name position (e :: es) sources =
      ⟨some ⟨position, c⟩, e'.keep name (some c) :: es, sources', .miss⟩ := by
  rw [consult, if_neg (show ¬ (onlyExisting && !e.strategy.isAuthoritative) = true from h), hr]
  simp only [hask]

theorem consult_missed (h : ¬ Skips onlyExisting e) (hr : e.remembered name = .unknown)
    (hask : e.ask tree sources name = (none, e', sources')) :
    consult tree onlyExisting name position (e :: es) sources =
      (consult tree onlyExisting name (position + 1) es sources').behind (e'.keep name none)
        true := by
  rw [consult, if_neg (show ¬ (onlyExisting && !e.strategy.isAuthoritative) = true from h), hr]
  simp only [hask]

/-- What an entry of a chain answers, and what it and the units are then. -/
inductive Responds (tree : FileTree) (onlyExisting : Bool) (name : String) (e : ChainEntry)
    (sources : SourceSet) : Option Class → ChainEntry → SourceSet → Prop
  | skipped (h : Skips onlyExisting e) :
      Responds tree onlyExisting name e sources none e sources
  | found {c : Class} (h : ¬ Skips onlyExisting e) (hremembered : e.remembered name = .found c) :
      Responds tree onlyExisting name e sources (some c) e sources
  | absent (h : ¬ Skips onlyExisting e) (hremembered : e.remembered name = .absent) :
      Responds tree onlyExisting name e sources none e sources
  | asked {answer : Option Class} (h : ¬ Skips onlyExisting e)
      (hremembered : e.remembered name = .unknown)
      (hask : (e.ask tree sources name).1 = answer) :
      Responds tree onlyExisting name e sources answer
        ((e.ask tree sources name).2.1.keep name answer) (e.ask tree sources name).2.2

namespace Responds

variable {answer : Option Class}

theorem grows (h : Responds tree onlyExisting name e sources answer e' sources') :
    sources.Grows sources' := by
  cases h with
  | skipped | found | absent => exact .refl _
  | asked => exact (ask_asks ..).grows

theorem valid (h : Responds tree onlyExisting name e sources answer e' sources')
    (hvalid : sources.Valid) : sources'.Valid := by
  cases h with
  | skipped | found | absent => exact hvalid
  | asked => exact (ask_asks ..).valid hvalid

theorem strategy (h : Responds tree onlyExisting name e sources answer e' sources') :
    e'.strategy = e.strategy := by
  cases h with
  | skipped | found | absent => rfl
  | asked => exact (strategy_keep ..).trans (ask_asks ..).strategy

/-- An answer is a class that the strategy of the entry finds. -/
theorem finds (h : Responds tree onlyExisting name e sources (some c) e' sources')
    (he : e.Faithful tree sources) : e.strategy.Finds sources' name c := by
  cases h with
  | found _ hremembered => exact he.found name c (remembered_found hremembered)
  | asked _ _ hask => exact finds_of_ask hask

theorem faithful (h : Responds tree onlyExisting name e sources answer e' sources')
    (he : e.Faithful tree sources) (hvalid : sources.Valid) : e'.Faithful tree sources' := by
  have hstrategy := (ask_asks e tree sources name).strategy
  cases h with
  | skipped | found | absent => exact he
  | asked _ _ hask =>
    cases answer with
    | some c => exact (he.ask name).keep_some (hstrategy.symm ▸ finds_of_ask hask)
    | none =>
      exact (he.ask name).keep_none fun hcaches => misses_of_ask hvalid (hstrategy ▸ hcaches) hask

end Responds

theorem exists_responds (tree : FileTree) (onlyExisting : Bool) (name : String) (e : ChainEntry)
    (sources : SourceSet) :
    ∃ answer e' sources', Responds tree onlyExisting name e sources answer e' sources' := by
  by_cases hskips : Skips onlyExisting e
  · exact ⟨_, _, _, .skipped hskips⟩
  cases hremembered : e.remembered name with
  | found c => exact ⟨_, _, _, .found hskips hremembered⟩
  | absent => exact ⟨_, _, _, .absent hskips hremembered⟩
  | unknown => exact ⟨_, _, _, .asked hskips hremembered rfl⟩

/-- Behind an entry that does not answer the question goes on. -/
theorem consult_passed (h : Responds tree onlyExisting name e sources none e' sources')
    (position : Nat) (es : List ChainEntry) :
    let r := consult tree onlyExisting name (position + 1) es sources'
    ∃ tally, consult tree onlyExisting name position (e :: es) sources =
      ⟨r.answer, e' :: r.entries, r.sources, tally⟩ := by
  cases h with
  | skipped hskips => exact ⟨_, consult_skipped hskips⟩
  | absent hskips hremembered => exact ⟨_, consult_absent hskips hremembered⟩
  | asked hskips hremembered hask =>
    exact ⟨_, consult_missed hskips hremembered (Prod.ext hask rfl)⟩

/-- An entry that answers ends the question. -/
theorem consult_ended (h : Responds tree onlyExisting name e sources (some c) e' sources')
    (position : Nat) (es : List ChainEntry) :
    ∃ tally, consult tree onlyExisting name position (e :: es) sources =
      ⟨some ⟨position, c⟩, e' :: es, sources', tally⟩ := by
  cases h with
  | found hskips hremembered => exact ⟨_, consult_found hskips hremembered⟩
  | asked hskips hremembered hask =>
    exact ⟨_, consult_answered hskips hremembered (Prod.ext hask rfl)⟩

/-- What holds behind the end of a chain and is handed on by each entry, whether it answers or not,
holds of every question to a chain. -/
theorem consult_induction {motive : Nat → List ChainEntry → SourceSet → Consulted → Prop}
    (nil : ∀ position sources, motive position [] sources ⟨none, [], sources, .uncounted⟩)
    (passed : ∀ {position e es sources e' sources'} (tally : Tally),
      Responds tree onlyExisting name e sources none e' sources' →
      let r := consult tree onlyExisting name (position + 1) es sources'
      motive (position + 1) es sources' r →
        motive position (e :: es) sources ⟨r.answer, e' :: r.entries, r.sources, tally⟩)
    (answered : ∀ {position e es sources c e' sources'} (tally : Tally),
      Responds tree onlyExisting name e sources (some c) e' sources' →
        motive position (e :: es) sources ⟨some ⟨position, c⟩, e' :: es, sources', tally⟩)
    (position : Nat) (es : List ChainEntry) (sources : SourceSet) :
    motive position es sources (consult tree onlyExisting name position es sources) := by
  induction es generalizing position sources with
  | nil => exact nil position sources
  | cons e es ih =>
    obtain ⟨answer, e', sources', h⟩ := exists_responds tree onlyExisting name e sources
    cases answer with
    | none =>
      obtain ⟨tally, hconsult⟩ := consult_passed h position es
      exact hconsult ▸ passed tally h (ih ..)
    | some c =>
      obtain ⟨tally, hconsult⟩ := consult_ended h position es
      exact hconsult ▸ answered tally h

/-- What a question does to a chain and to a source set. -/
structure Consults (tree : FileTree) (es : List ChainEntry) (sources : SourceSet) (r : Consulted) :
    Prop where
  strategies : r.entries.map (·.strategy) = es.map (·.strategy)
  grows : sources.Grows r.sources
  valid : r.sources.Valid
  faithful : ∀ e ∈ r.entries, e.Faithful tree r.sources

/-- An entry in front that the question leaves as it is, or that was asked and had no answer. -/
theorem Consults.cons {r : Consulted} (hr : Consults tree es sources' r)
    (hgrows : sources.Grows sources') (he : e'.Faithful tree sources')
    (hstrategy : e'.strategy = e.strategy) (answer : Option Answer) (tally : Tally) :
    Consults tree (e :: es) sources ⟨answer, e' :: r.entries, r.sources, tally⟩ :=
  ⟨by simp [hstrategy, hr.strategies], hgrows.trans hr.grows, hr.valid,
    List.forall_mem_cons.mpr ⟨he.mono hr.grows, hr.faithful⟩⟩

/-- A question keeps every entry faithful. -/
theorem consult_consults (hfaithful : ∀ e ∈ es, e.Faithful tree sources) (hvalid : sources.Valid)
    (onlyExisting : Bool) (name : String) (position : Nat) :
    Consults tree es sources (consult tree onlyExisting name position es sources) := by
  refine consult_induction (motive := fun _ es sources r =>
    (∀ e ∈ es, e.Faithful tree sources) → sources.Valid → Consults tree es sources r)
    ?nil ?passed ?answered position es sources hfaithful hvalid
  case nil => exact fun _ _ _ hvalid => ⟨rfl, .refl _, hvalid, by simp⟩
  case passed =>
    intro _ e es sources e' sources' tally hresponds r ih hfaithful hvalid
    obtain ⟨he, hes⟩ := List.forall_mem_cons.mp hfaithful
    have hrest := ih (fun d hd => (hes d hd).mono hresponds.grows) (hresponds.valid hvalid)
    exact hrest.cons hresponds.grows (hresponds.faithful he hvalid) hresponds.strategy _ _
  case answered =>
    intro _ e es sources c e' sources' tally hresponds hfaithful hvalid
    obtain ⟨he, hes⟩ := List.forall_mem_cons.mp hfaithful
    refine ⟨?_, hresponds.grows, hresponds.valid hvalid, List.forall_mem_cons.mpr
      ⟨hresponds.faithful he hvalid, fun d hd => (hes d hd).mono hresponds.grows⟩⟩
    rw [List.map_cons, List.map_cons, hresponds.strategy]

/-! ### Units found -/

theorem units_ask {P : SourceUnit → Prop}
    (hread : ∀ {id path text u}, SourceUnit.ofText id path text = .ok u → P u)
    (h : ∀ u ∈ sources.units, P u) (e : ChainEntry) (tree : FileTree) (name : String) :
    ∀ u ∈ (e.ask tree sources name).2.2.units, P u := by
  cases hstrategy : e.strategy with
  | parsedSources => rwa [ask_parsedSources hstrategy]
  | registry r => rwa [ask_registry hstrategy]
  | sourceRoots locators =>
    rw [ask_sourceRoots hstrategy]
    exact Loading.units_search hread h tree name _
  | stub => rwa [ask_stub hstrategy]

/-- What asking any entry does to a source set, over and over, a question to a chain does. -/
theorem consult_sources {R : SourceSet → SourceSet → Prop} (hrefl : ∀ sources, R sources sources)
    (htrans : ∀ {a b c}, R a b → R b c → R a c)
    (hask : ∀ e sources, R sources (ChainEntry.ask e tree sources name).2.2)
    (onlyExisting : Bool) (position : Nat) (es : List ChainEntry) (sources : SourceSet) :
    R sources (consult tree onlyExisting name position es sources).sources := by
  have hresponds {e e' sources sources' answer}
      (h : Responds tree onlyExisting name e sources answer e' sources') : R sources sources' := by
    cases h with
    | skipped | found | absent => exact hrefl _
    | asked => exact hask ..
  exact consult_induction (motive := fun _ _ sources r => R sources r.sources)
    (fun _ => hrefl) (fun _ h ih => htrans (hresponds h) ih) (fun _ h => hresponds h) position es
    sources

/-- What holds of every unit that is read holds of all units behind a question if it held of those
before. -/
theorem units_consult {P : SourceUnit → Prop}
    (hread : ∀ {id path text u}, SourceUnit.ofText id path text = .ok u → P u)
    (h : ∀ u ∈ sources.units, P u) (tree : FileTree) (onlyExisting : Bool) (name : String)
    (position : Nat) (es : List ChainEntry) :
    ∀ u ∈ (consult tree onlyExisting name position es sources).sources.units, P u :=
  consult_sources (R := fun a b => (∀ u ∈ a.units, P u) → ∀ u ∈ b.units, P u) (fun _ => id)
    (fun h h' => h' ∘ h) (fun e _ h => units_ask hread h e tree name) onlyExisting position es
    sources h

/-- A question only adds units, whatever the chain remembers. -/
theorem grows_consult (tree : FileTree) (onlyExisting : Bool) (name : String) (position : Nat)
    (es : List ChainEntry) (sources : SourceSet) :
    sources.Grows (consult tree onlyExisting name position es sources).sources :=
  consult_sources .refl .trans (fun e sources => (ask_asks e tree sources name).grows)
    onlyExisting position es sources

end JavaModel
