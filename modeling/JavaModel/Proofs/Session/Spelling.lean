import JavaModel.Proofs.Model.Spelling
import JavaModel.Proofs.Session.Naming
import JavaModel.Proofs.Session.Questions

/-! What written types come to mean with a stub behind the chain. Every segment of the meaning of a
name is an identifier of the text, the name of a primitive type, or a segment of a package visible
everywhere. A stub makes up a class for a name just when its segments are identifiers by a stricter
rule than that of texts, so only a segment that breaks this rule can leave a type without a class.
-/

namespace JavaModel

open Name

/-! ### Meanings of names in a unit -/

namespace ImportScope

variable {P : String → Prop} {s : ImportScope}

/-- All names that the scope can give are in `P`. -/
structure Names (P : String → Prop) (s : ImportScope) : Prop where
  single : ∀ name fullName, s.single.find? name = some fullName → P fullName
  whole : ∀ p ∈ s.whole, P p

theorem Names.add (h : s.Names P) {i : Import} (hi : P i.name) : (s.add i).Names P := by
  unfold ImportScope.add
  split
  · exact h
  split
  · refine ⟨h.single, fun p hp => ?_⟩
    dsimp only at hp
    split at hp
    · exact h.whole p hp
    · exact (List.mem_append.mp hp).elim (h.whole p) fun hp => List.mem_singleton.mp hp ▸ hi
  · refine ⟨fun name fullName hname => ?_, h.whole⟩
    simp only [Table.find?_record, Option.or_eq_some_iff] at hname
    obtain hname | ⟨_, hname⟩ := hname
    · exact h.single name fullName hname
    · obtain ⟨_, hname⟩ := Option.ite_none_right_eq_some.mp hname
      exact Option.some.inj hname ▸ hi

theorem names_ofImports {is : List Import} (h : ∀ i ∈ is, P i.name) : (ofImports is).Names P := by
  suffices hfoldl : ∀ s : ImportScope, s.Names P → (is.foldl ImportScope.add s).Names P from
    hfoldl empty ⟨by simp [empty], by simp [empty]⟩
  induction is with
  | nil => exact fun _ hs => hs
  | cons i is ih =>
    obtain ⟨hi, his⟩ := List.forall_mem_cons.mp h
    exact fun s hs => ih his _ (hs.add hi)

end ImportScope

namespace SourceUnit

variable {W : String → Prop} {u : SourceUnit} {implicitPackages : List String}
  {context : Option ClassIndex} {name fullName : String}

theorem mem_of_mem_filterMap_classAt? {is : List ClassIndex} {c : Class}
    (h : c ∈ is.filterMap u.classAt?) : c ∈ u.classes := by
  obtain ⟨i, _, hc⟩ := List.mem_filterMap.mp h
  exact List.mem_of_getElem? hc

/-- What is in scope is a class of the unit. -/
theorem exists_of_inScope? (h : u.inScope? context name = some fullName) :
    ∃ c ∈ u.classes, c.fullName = fullName := by
  rcases Option.or_eq_some_iff.mp h with h | ⟨_, h⟩
  · obtain ⟨c, hc, hfound⟩ := List.exists_of_findSome?_eq_some h
    split at hfound
    · exact ⟨c, mem_of_mem_scopeFrom hc, Option.some.inj hfound⟩
    · obtain ⟨n, hn, hname⟩ := Option.map_eq_some_iff.mp hfound
      exact ⟨n, mem_of_mem_filterMap_classAt? (List.mem_of_find?_eq_some hn), hname⟩
  · obtain ⟨c, hc, hname⟩ := Option.map_eq_some_iff.mp h
    exact ⟨c, mem_of_mem_filterMap_classAt? (List.mem_of_find?_eq_some hc), hname⟩

namespace Spelled

variable (h : u.Spelled W) (himplicit : ∀ p ∈ implicitPackages, Dotted W p)

include h

/-- What the unit itself says that a name means is spelled. -/
theorem dotted_settled (hsettled : ((ImportScope.ofImports u.imports).single.find? name).or
    (u.inScope? context name) = some fullName) : Dotted W fullName := by
  rcases Option.or_eq_some_iff.mp hsettled with hsingle | ⟨_, hscope⟩
  · exact (ImportScope.names_ofImports h.imports).single name fullName hsingle
  · obtain ⟨c, hc, rfl⟩ := exists_of_inScope? hscope
    exact h.classes c hc

include himplicit

theorem dotted_candidates (hname : Dotted W name) :
    ∀ n ∈ u.candidates implicitPackages name, Dotted W n := by
  refine List.forall_mem_cons.mpr ⟨hname.join h.package, fun n hn => ?_⟩
  obtain ⟨p, hp, rfl⟩ := List.mem_map.mp hn
  refine Dotted.append ?_ hname
  rcases List.mem_append.mp hp with hp | hp
  · exact (ImportScope.names_ofImports h.imports).whole p hp
  · exact himplicit p hp

end Spelled

/-- The parts of a dotted name are dotted. -/
theorem dotted_splitHead {head rest : String} (hname : Dotted W name)
    (h : splitHead name = (head, some rest)) : Dotted W head ∧ Dotted W rest := by
  unfold splitHead at h
  split at h
  · rename_i first next others hsegments
    obtain ⟨rfl, hrest⟩ := Prod.mk.inj h
    have hsegment (w : String) (hw : w ∈ first :: next :: others) : Dotted W w :=
      hname.segment (hsegments ▸ hw)
    refine ⟨hsegment _ (List.mem_cons_self ..), ?_⟩
    rw [← Option.some.inj hrest]
    exact Dotted.ofSegments (by simp) fun w hw => hsegment w (List.mem_cons_of_mem _ hw)
  · cases h

end SourceUnit

/-! ### Searches -/

namespace Query

variable {W : String → Prop} {I : Session → Prop} {u : SourceUnit} {around : Surroundings Query}
  {context : Option ClassIndex} {name : String}

theorem ensures_firstKnown {isKnown : String → Query Bool}
    (h : ∀ name, Ensures I (isKnown name) fun _ => True) (names : List String) :
    Ensures I (firstKnown isKnown names) fun found => ∀ n ∈ found, n ∈ names := by
  induction names with
  | nil => exact ensures_pure fun _ hn => absurd hn (by simp)
  | cons name names ih =>
    refine (h name).bind fun _ _ => .ite (ensures_pure ?_) (ih.mono fun found hfound n hn => ?_)
    · rintro _ ⟨⟩
      exact List.mem_cons_self ..
    · exact List.mem_cons_of_mem name (hfound n hn)

variable (hu : u.Spelled W) (himplicit : ∀ p ∈ around.implicitPackages, Dotted W p)
  (hknown : ∀ name, Ensures I (around.isKnown name) fun _ => True)

include hu himplicit hknown

theorem ensures_resolveSimple (hname : Dotted W name) :
    Ensures I (u.resolveSimple around context name) fun found => ∀ n ∈ found, Dotted W n := by
  unfold SourceUnit.resolveSimple
  split
  · rename_i fullName hsettled
    refine ensures_pure ?_
    rintro _ ⟨⟩
    exact hu.dotted_settled hsettled
  · exact (ensures_firstKnown hknown _).mono fun found hfound n hn =>
      hu.dotted_candidates himplicit hname n (hfound n hn)

/-- A search for the meaning of a name gives one that is made of the same words. -/
theorem ensures_resolveName (hname : Dotted W name) :
    Ensures I (u.resolveName around context name) fun found => ∀ n ∈ found, Dotted W n := by
  have hsame : ∀ n ∈ some name, Dotted W n := by
    rintro _ ⟨⟩
    exact hname
  unfold SourceUnit.resolveName
  split
  · exact ensures_resolveSimple hu himplicit hknown hname
  · rename_i head rest hsplit
    obtain ⟨hhead, hrest⟩ := SourceUnit.dotted_splitHead hname hsplit
    refine (ensures_resolveSimple hu himplicit hknown hhead).bind fun outer houter => ?_
    cases outer with
    | some outer =>
      refine ensures_pure ?_
      rintro _ ⟨⟩
      exact (houter outer rfl).append hrest
    | none =>
      exact (hknown name).bind fun _ _ => .ite (ensures_pure hsame)
        (.ite (ensures_pure hsame) (ensures_pure (by simp)))

end Query

/-! ### References to a unit -/

/-- The reference stands in the unit if it has a slot of the unit. -/
def SourceUnit.Owns (u : SourceUnit) (r : TypeRef) : Prop :=
  ∀ slot context, r.origin = .written slot context → slot.source = u.id → u.Mentions r

theorem SourceUnit.owns_of_qualified (u : SourceUnit) {r : TypeRef} (h : r.origin = .qualified) :
    u.Owns r := by
  intro slot context horigin
  rw [h] at horigin
  cases horigin

/-- The references of a class known by its shape alone have no slots. -/
theorem ClassShape.refs_toClass (shape : ClassShape) :
    shape.toClass.Refs fun r => r.origin = .qualified := by
  have htext (text : String) : ∀ r ∈ (TypeRef.ofText text).spread, r.origin = .qualified := by
    intro r hr
    obtain rfl := List.mem_singleton.mp hr
    rfl
  have hmethod (owner name : String) (m : MethodShape) :
      (method owner name m).Refs fun r => r.origin = .qualified := by
    intro site hsite
    simp only [SitedRef.ofMethod, method, SitedRef.ofAnnotations, SitedRef.ofBounds, List.map_nil,
      List.flatMap_nil, List.nil_append, List.mem_append, List.mem_map, Option.mem_toList,
      List.mem_flatMap] at hsite
    rcases hsite with (⟨r, hr, rfl⟩ | ⟨_, ⟨p, _, rfl⟩, hsite⟩) | ⟨_, ⟨t, _, rfl⟩, rfl⟩
    · obtain ⟨t, _, rfl⟩ := Option.map_eq_some_iff.mp hr
      exact htext t
    · obtain rfl := List.mem_singleton.mp hsite
      exact htext p
    · exact htext t
  intro site hsite
  simp only [Class.typeRefs, toClass, Class.bare, SitedRef.ofAnnotations, SitedRef.ofBounds,
    List.map_nil, List.flatMap_nil, List.nil_append, List.append_nil, List.mem_append, List.mem_map,
    Option.mem_toList, List.mem_flatMap] at hsite
  rcases hsite with ((⟨r, hr, rfl⟩ | ⟨_, ⟨t, _, rfl⟩, rfl⟩) | ⟨_, ⟨f, _, rfl⟩, hsite⟩) |
    ⟨m, hm, hsite⟩
  · obtain ⟨t, _, rfl⟩ := Option.map_eq_some_iff.mp hr
    exact htext t
  · exact htext t
  · obtain rfl := List.mem_singleton.mp hsite
    exact htext f.type
  · rcases hm with ⟨m, _, rfl⟩ | ⟨m, _, rfl⟩
    · exact hmethod _ _ m site hsite
    · exact hmethod _ _ m site hsite

theorem SourceUnit.IsRead.arranged {u : SourceUnit} (h : u.IsRead) : u.Arranged := by
  obtain ⟨path, text, hread⟩ := h
  rw [SourceUnit.eq_ofEvents_of_ofText hread]
  exact SourceUnit.arranged_ofEvents _ _ _

namespace Session

variable {W : String → Prop} {u : SourceUnit} {s t : Session}

/-- The session has the unit, and the meanings that it knows of names in the unit are spelled, as
are the packages visible everywhere. -/
structure Spells (W : String → Prop) (u : SourceUnit) (s : Session) : Prop where
  regular : s.Regular
  filled : s.sources.IsFilled
  unit : u ∈ s.sources.units
  implicitPackages : ∀ p ∈ s.implicitPackages, Dotted W p
  known : ∀ slot fullName, slot.source = u.id → s.known.find? slot = some fullName →
    Dotted W fullName

/-- What changes the units only, and only adds to them. -/
theorem Spells.grow (h : s.Spells W u) (hregular : t.Regular) (hleads : s.Leads t)
    (hreaches : s.sources.Reaches t.sources) (hknown : t.known = s.known) : t.Spells W u := by
  refine ⟨hregular, h.filled.reaches hreaches, hleads.sources.units.subset h.unit, ?_, ?_⟩
  · rw [hleads.implicitPackages]
    exact h.implicitPackages
  · rw [hknown]
    exact h.known

theorem Spells.unit_eq (h : s.Spells W u) {v : SourceUnit} (hv : v ∈ s.sources.units)
    (hid : v.id = u.id) : v = u :=
  List.inj_on_of_nodup_map h.filled.indexed.distinct hv h.unit hid

/-- References in classes of the session are those of its units. -/
theorem Spells.owns_declared (h : s.Spells W u) {v : SourceUnit} (hv : v ∈ s.sources.units)
    {c : Class} (hc : c ∈ v.classes) : c.Refs u.Owns := by
  intro site hsite r hr slot context horigin hslot
  obtain ⟨n, hn⟩ := List.mem_iff_getElem?.mp hc
  obtain ⟨hsource, _⟩ :=
    ((h.regular.read v hv).arranged.owned ⟨n⟩ c hn).refs site hsite r hr slot context horigin
  obtain rfl := h.unit_eq hv (hsource.symm.trans hslot)
  exact .inl (SourceUnit.mem_references.mpr ⟨c, hc, site, hsite, hr⟩)

theorem Spells.owns_found (h : s.Spells W u) {strategy : Strategy} {name : String} {c : Class}
    (hfinds : strategy.Finds s.sources name c) : c.Refs u.Owns := by
  have hdeclared (hc : s.sources.class? name = some c) : c.Refs u.Owns := by
    obtain ⟨v, hv, hc⟩ := List.mem_flatMap.mp (h.filled.class?_spec hc).2
    exact h.owns_declared hv hc
  cases strategy with
  | parsedSources => exact hdeclared hfinds
  | sourceRoots locators => exact hdeclared hfinds
  | registry r =>
    obtain ⟨shape, _, rfl⟩ := Option.map_eq_some_iff.mp hfinds
    exact fun site hsite r hr => u.owns_of_qualified (shape.refs_toClass site hsite r hr)
  | stub =>
    obtain ⟨_, rfl⟩ := hfinds
    exact fun site hsite => absurd hsite List.not_mem_nil

open Query

theorem ensures_find (onlyExisting : Bool) (name : String) :
    Ensures (Spells W u) (find onlyExisting name) fun answer =>
      ∀ a ∈ answer, a.found.Refs u.Owns := by
  intro s hs
  have hstate : (find onlyExisting name s).2.Spells W u := hs.grow
    (hs.regular.find onlyExisting name) (keeps_find onlyExisting name s hs.regular.sound).2
    (reaches_find onlyExisting name s) (known_count _ _)
  refine ⟨hstate, fun a ha => ?_⟩
  obtain ⟨e, _, hfinds⟩ := finds_of_consult hs.regular.sound.entries ha
  have hsources : (find onlyExisting name s).2.sources =
      (consult s.tree onlyExisting name 0 s.entries s.sources).sources := sources_count _ _
  rw [← hsources] at hfinds
  exact hstate.owns_found hfinds

theorem Spells.record (h : s.Spells W u) {slot : Slot}
    (hunit : (s.sources.unit? slot.source).isSome) {fullName : String}
    (hname : slot.source = u.id → Dotted W fullName) :
    Spells W u { s with known := s.known.record slot fullName } := by
  refine ⟨h.regular.record hunit fullName, h.filled, h.unit, h.implicitPackages, ?_⟩
  intro other n hother hn
  change (s.known.record slot fullName).find? other = some n at hn
  rw [Table.find?_record, Option.or_eq_some_iff] at hn
  obtain hn | ⟨_, hn⟩ := hn
  · exact h.known other n hother hn
  · obtain ⟨rfl, heq⟩ := Option.ite_none_right_eq_some.mp hn
    obtain rfl := Option.some.inj heq
    exact hname hother

/-- Surroundings whose packages are spelled, and whose questions leave units where they are. -/
structure Settled (W : String → Prop) (u : SourceUnit) (around : Surroundings Query) : Prop where
  implicitPackages : ∀ p ∈ around.implicitPackages, Dotted W p
  isKnown : ∀ name, Ensures (Spells W u) (around.isKnown name) fun _ => True
  grows : ∀ name (s : Session), s.sources.Grows (around.isKnown name s).2.sources

theorem Spells.settled_library (h : s.Spells W u) : Settled W u s.library :=
  ⟨h.implicitPackages, fun name => (ensures_find true name).bind fun _ _ => ensures_pure trivial,
    grows_hasClass⟩

theorem settled_onlySources : Settled W u onlySources :=
  ⟨by simp [onlySources], fun _ => ensures_get.bind fun _ _ => ensures_pure trivial,
    fun _ _ => .refl _⟩

/-- Resolving a reference keeps the meanings of names in the unit spelled, if the reference stands
in the unit or has no slot of it; and its own meaning is spelled if it stands in the unit. -/
theorem ensures_resolve (hu : u.Spelled W) {around : Surroundings Query}
    (haround : Settled W u around) {r : TypeRef} (hr : u.Owns r) :
    Ensures (Spells W u) (resolve around r) fun fullName =>
      u.Mentions r → (∀ slot context, r.origin = .written slot context → slot.source = u.id) →
        Dotted W fullName := by
  have hname (hmentions : u.Mentions r) : Dotted W r.name := hu.mentions r hmentions
  unfold resolve
  cases horigin : r.origin with
  | qualified => exact ensures_pure fun hmentions _ => hname hmentions
  | typeVariable => exact ensures_pure fun hmentions _ => hname hmentions
  | written slot context =>
    intro s hs
    dsimp only
    rw [bind_apply, get_apply]
    cases hknown : s.known.find? slot with
    | some fullName =>
      exact ⟨hs, fun _ hown => hs.known slot fullName (hown slot context rfl) hknown⟩
    | none =>
      cases hunit : s.sources.unit? slot.source with
      | none => exact ⟨hs, fun hmentions _ => hname hmentions⟩
      | some v =>
        dsimp only
        -- The unit of the slot is still there when the meaning is recorded.
        let I (t : Session) : Prop := t.Spells W u ∧ (t.sources.unit? slot.source).isSome
        have hstays (name : String) : Ensures I (around.isKnown name) fun _ => True := by
          rintro t ⟨ht, hsome⟩
          obtain ⟨w, hw⟩ := Option.isSome_iff_exists.mp hsome
          obtain ⟨hspells, _⟩ := haround.isKnown name t ht
          refine ⟨⟨hspells, ?_⟩, trivial⟩
          rw [(haround.grows name t).unit? hw]
          rfl
        have hv := List.mem_of_find?_eq_some hunit
        have hid : v.id = slot.source := of_decide_eq_true (List.find?_some hunit :)
        -- Of other units nothing is known, and nothing need be.
        have hsearch : Ensures I (v.resolveName around context r.name) fun found =>
            slot.source = u.id → ∀ n ∈ found, Dotted W n := by
          by_cases hown : slot.source = u.id
          · obtain rfl := hs.unit_eq hv (hid.trans hown)
            exact (ensures_resolveName hu haround.implicitPackages hstays
              (hname (hr slot context horigin hown))).mono fun _ hfound _ => hfound
          · have hany (n : String) : Dotted (fun _ => True) n := fun _ _ => trivial
            have hspelled : v.Spelled fun _ => True :=
              ⟨fun _ _ => hany _, fun _ _ => hany _, fun _ _ => hany _, fun _ _ => hany _⟩
            exact (ensures_resolveName hspelled (fun _ _ => hany _) hstays (hany _)).mono
              fun _ _ h => absurd h hown
        rw [bind_apply]
        obtain ⟨⟨hspells, hsome⟩, hmeaning⟩ := hsearch s ⟨hs, by rw [hunit]; rfl⟩
        cases hfound : (v.resolveName around context r.name s).1 with
        | some fullName =>
          have hmeant (hown : slot.source = u.id) : Dotted W fullName :=
            hmeaning hown fullName hfound
          exact ⟨hspells.record hsome hmeant, fun _ hown => hmeant (hown slot context rfl)⟩
        | none => exact ⟨hspells, fun hmentions _ => hname hmentions⟩

theorem minds_spells (hu : u.Spelled W) : Minds (Spells W u) u.Owns where
  find := ensures_find
  resolve _ hs _ hr := (ensures_resolve hu hs.settled_library hr).mono fun _ _ => trivial
  resolveAmongUnits _ hr := (ensures_resolve hu settled_onlySources hr).mono fun _ _ => trivial
  units _ hs _ hv _ hc := hs.owns_declared hv hc

/-- Every turn keeps the meanings of names in the unit spelled, if the references handed in stand in
the unit or have no slots of it. -/
theorem Spells.respond (h : s.Spells W u) (hu : u.Spelled W) {turn : Turn}
    (hturn : ∀ r ∈ turn.refs, u.Owns r) : (respond turn s).2.Spells W u := by
  rcases asks_or_adds turn s with ⟨q, rfl⟩ | hadds
  · exact ((minds_spells hu).ensures_ask q hturn s h).1
  · exact h.grow (h.regular.respond turn) (h.regular.sound.respond turn).2 (reaches_respond turn s)
      hadds.known

theorem Spells.converse (h : s.Spells W u) (hu : u.Spelled W) {ts : List Turn}
    (hts : ∀ turn ∈ ts, ∀ r ∈ turn.refs, u.Owns r) : (converse ts s).2.Spells W u := by
  induction ts generalizing s with
  | nil => exact h
  | cons turn ts ih =>
    obtain ⟨hturn, hts⟩ := List.forall_mem_cons.mp hts
    rw [Session.converse, List.mapM_cons, bind_apply, bind_apply]
    exact ih (h.respond hu hturn) hts

/-! ### Types with and without a class -/

theorem isIdentifier_primitive : ∀ word ∈ Name.primitives, Name.isIdentifier word := by
  decide +kernel

/-- The words that the meanings of names in a text can be made of. -/
def IsNamingWord (s : Session) (text word : String) : Prop :=
  SourceUnit.IsWordOf text word ∨ ∃ p ∈ s.implicitPackages, word ∈ Name.segments p

variable {text : String} {path : FilePath}

/-- A text that is added is spelled, and nothing is known of its names yet. -/
theorem Reachable.spells_addText (h : s.Reachable)
    (hread : SourceUnit.ofText ⟨s.sources.nextId⟩ path text = .ok u) :
    (addText path text s).1 = .ok ⟨u, (s.sources.reserveId.2.insert u).2⟩ ∧
      (addText path text s).2.Spells (s.IsNamingWord text) u := by
  obtain ⟨hid, _⟩ := SourceUnit.ofText_places hread
  obtain ⟨_, hleads⟩ := keeps_addText path text s h.regular.sound
  have hadds := adds_addText path text s
  have hadded : addText path text s = (.ok ⟨u, (s.sources.reserveId.2.insert u).2⟩,
      { s with sources := (s.sources.reserveId.2.insert u).1 }) := by
    rw [addText, bind_apply]
    change insertRead (SourceUnit.ofText ⟨s.sources.nextId⟩ path text) _ = _
    rw [hread]
    rfl
  refine ⟨by rw [hadded], ?_⟩
  refine
    { regular := h.regular.addSource (.text path text)
      filled := h.isFilled.reaches (reaches_addText path text s)
      unit := ?_
      implicitPackages := fun p hp w hw => .inr ⟨p, hleads.implicitPackages ▸ hp, hw⟩
      known := fun slot fullName hslot hknown => ?_ }
  · rw [hadded]
    exact List.mem_append_right _ (List.mem_singleton_self u)
  · -- The id of the unit is new, so that no meaning can be known of a name with a slot of it.
    rw [hadds.known] at hknown
    have hlt := h.regular.known slot fullName hknown
    rw [hslot, hid] at hlt
    exact absurd hlt (Nat.lt_irrefl _)

/-- What a reference in the unit means is made of the words of the text and of packages visible
everywhere. -/
theorem Spells.dotted_resolveRef (h : s.Spells W u) (hu : u.Spelled W) {r : TypeRef}
    (hr : r ∈ u.references) : Dotted W (resolveRef r s).1 := by
  obtain ⟨c, hc, site, hsite, hspread⟩ := SourceUnit.mem_references.mp hr
  obtain ⟨n, hn⟩ := List.mem_iff_getElem?.mp hc
  have howned := (h.regular.read u h.unit).arranged.owned ⟨n⟩ c hn
  have howns : u.Owns r := fun _ _ _ _ => .inl hr
  exact (ensures_resolve hu h.settled_library howns s h).2 (.inl hr) fun slot context horigin =>
    (howned.refs site hsite r hspread slot context horigin).1

/-- Add a text that follows the grammar to any session with a stub, and say what you will to the
session then, with references of your own only in so far as they stand in the unit or have no slots
of it. A class is found for what any reference in the unit means, unless a segment of this meaning
is no valid identifier; and then this segment is an identifier of the text itself, or a segment of
a package visible everywhere. -/
theorem class_of_written_type (hs : s.Reachable) (hstub : .stub ∈ s.entries.map (·.strategy))
    (hparse : (parse text).error = none) (path : FilePath) :
    ∃ u duplicates, (addText path text s).1 = .ok ⟨u, duplicates⟩ ∧
      ∀ ts, (∀ turn ∈ ts, ∀ r ∈ Turn.refs turn, u.Owns r) → ∀ r ∈ u.references,
        let meaning := resolveRef r (converse ts (addText path text s).2).2
        (classNamed meaning.1 meaning.2).1.isSome ∨
          ∃ w ∈ Name.segments meaning.1, Name.isIdentifier w = false ∧
            ((∃ token ∈ (lex text).tokens, token.kind = .identifier ∧ token.text = w) ∨
              ∃ p ∈ s.implicitPackages, w ∈ Name.segments p) := by
  obtain ⟨u, hread⟩ : ∃ u, SourceUnit.ofText ⟨s.sources.nextId⟩ path text = .ok u :=
    ⟨_, SourceUnit.ofText_of_parses hparse _ _⟩
  obtain ⟨hadded, hspells⟩ := hs.spells_addText hread
  refine ⟨u, _, hadded, fun ts hts r hr => ?_⟩
  have hu : u.Spelled (s.IsNamingWord text) :=
    (SourceUnit.spelled_ofText hread).mono fun _ => .inl
  let t := (converse ts (addText path text s).2).2
  have ht : t.Spells (s.IsNamingWord text) u := hspells.converse hu hts
  have hreachable : (resolveRef r t).2.Reachable :=
    ((hs.respond (.add (.text path text))).converse ts).respond (.ask (.resolve r))
  have hleads : s.Leads (resolveRef r t).2 :=
    ((keeps_addText path text s hs.regular.sound).2.trans
      (hspells.regular.sound.converse ts).2).trans (keeps_resolveRef r t ht.regular.sound).2
  have hbehind : .stub ∈ (resolveRef r t).2.entries.map (·.strategy) := hleads.strategies ▸ hstub
  by_cases hvalid : Name.isQualified (resolveRef r t).1
  · left
    obtain ⟨_, made, hanswer, _, hmade⟩ := hreachable.answers (resolveRef r t).1
    rw [hanswer, Option.isSome_or, (hmade hbehind).mpr hvalid, Bool.or_true]
  · right
    obtain ⟨w, hw, hfails⟩ := List.all_eq_false.mp (Bool.eq_false_iff.mpr hvalid)
    refine ⟨w, hw, Bool.eq_false_iff.mpr hfails, ?_⟩
    rcases ht.dotted_resolveRef hu hr w hw with (htoken | hprimitive) | hpackage
    · exact .inl htoken
    · exact absurd (isIdentifier_primitive w hprimitive) hfails
    · exact .inr hpackage

/-- A text with types of all sorts, each of which has a class. -/
theorem class_of_written_type_sample :
    let s := standard { SessionOptions.standard with hasStub := true } (.empty ⟨"/"⟩)
    let text :=
      "package p; import q.B; class A<T> extends B.C \x7b int n; Map<T, ? super D> m; \x7d"
    s.Reachable ∧ .stub ∈ s.entries.map (·.strategy) ∧ (parse text).error = none ∧
      ∃ u duplicates, (addText ⟨"A.java"⟩ text s).1 = .ok ⟨u, duplicates⟩ ∧
        ∀ r ∈ u.references,
          let meaning := resolveRef r (addText ⟨"A.java"⟩ text s).2
          (classNamed meaning.1 meaning.2).1.isSome := by
  intro s text
  have hreachable : s.Reachable := ⟨_, _, _, [], rfl⟩
  have hstub : .stub ∈ s.entries.map (·.strategy) := List.mem_of_getElem? (i := 2) rfl
  have hparse : (parse text).error = none := by decide +kernel
  have hwords : ∀ token ∈ (lex text).tokens, token.kind = .identifier →
      Name.isIdentifier token.text := by
    decide +kernel
  obtain ⟨u, duplicates, hadded, hclass⟩ := class_of_written_type hreachable hstub hparse ⟨"A.java"⟩
  refine ⟨hreachable, hstub, hparse, u, duplicates, hadded, fun r hr => ?_⟩
  refine (hclass [] (fun _ h => absurd h List.not_mem_nil) r hr).resolve_right ?_
  rintro ⟨w, _, hfails, ⟨token, htoken, hkind, rfl⟩ | ⟨p, hp, hw⟩⟩
  · rw [hwords token htoken hkind] at hfails
    cases hfails
  · have hpackages : ∀ p ∈ s.implicitPackages, ∀ w ∈ Name.segments p, Name.isIdentifier w := by
      decide +kernel
    rw [hpackages p hp w hw] at hfails
    cases hfails

/-- An identifier of a text may hold characters that no valid identifier holds, and a package
visible everywhere may be no valid name; each can leave a type without a class. -/
theorem written_type_without_class :
    let options : SessionOptions := { SessionOptions.standard with hasStub := true }
    let s := standard options (.empty ⟨"/"⟩)
    let t := start { options with implicitPackages := ["1"] } (.empty ⟨"/"⟩)
      [.parsedSources, .registry (.ofList [.plain .plainClass "1.X"]), .stub]
    let lacks (s : Session) (text name : String) : Prop :=
      (parse text).error = none ∧ "stub" ∈ s.strategies ∧
        ∃ u ∈ (addText ⟨"A.java"⟩ text s).2.sources.units, ∃ r ∈ u.references,
          let meaning := resolveRef r (addText ⟨"A.java"⟩ text s).2
          meaning.1 = name ∧ (classNamed name meaning.2).1.isNone
    lacks s "class A \x7b € x; \x7d" "€" ∧ lacks t "class A \x7b X.Y f; \x7d" "1.X.Y" := by
  decide +kernel

end Session

end JavaModel
