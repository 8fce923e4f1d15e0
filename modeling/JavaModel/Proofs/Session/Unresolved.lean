import JavaModel.Proofs.Model.Addresses
import JavaModel.Proofs.Model.Numbering
import JavaModel.Proofs.Session.Relation
import JavaModel.Proofs.Session.Resolving
import JavaModel.Proofs.Session.Spelling

/-! The references that a session reports as unresolved. Where no strategy reads source files,
resolving leaves the units as they are and what the library knows, and a meaning is recorded under
the slot of its own reference only. So what is unresolved when its turn comes is unresolved at the
end, and at a second report. -/

namespace JavaModel

/-! ### Chains without source roots -/

namespace Strategy

/-- Whether the strategy reads source files. -/
def isSourceRoots : Strategy → Bool
  | .sourceRoots _ => true
  | _ => false

/-- What a strategy that reads no source files has to offer under a name. -/
def offers (onlyExisting : Bool) (sources : SourceSet) (name : String) : Strategy → Option Class
  | .parsedSources => sources.class? name
  | .registry r => (r.find? name).map ClassShape.toClass
  | .sourceRoots _ => none
  | .stub => if !onlyExisting && Name.isQualified name then some (.stub name) else none

/-- The first offer of strategies, with its position. -/
def offered (onlyExisting : Bool) (sources : SourceSet) (name : String) :
    Nat → List Strategy → Option Answer
  | _, [] => none
  | position, strategy :: strategies =>
    match strategy.offers onlyExisting sources name with
    | some c => some ⟨position, c⟩
    | none => offered onlyExisting sources name (position + 1) strategies

end Strategy

section Rootless

open ChainEntry

variable {tree : FileTree} {onlyExisting : Bool} {sources sources' : SourceSet}
  {e e' : ChainEntry} {es : List ChainEntry} {name : String} {answer : Option Class}

theorem ask_offers (hroots : e.strategy.isSourceRoots = false) (hasked : ¬ Skips onlyExisting e) :
    (e.ask tree sources name).1 = e.strategy.offers onlyExisting sources name ∧
      (e.ask tree sources name).2.2 = sources := by
  cases hstrategy : e.strategy with
  | parsedSources =>
    rw [ask_parsedSources hstrategy]
    exact ⟨rfl, rfl⟩
  | registry r =>
    rw [ask_registry hstrategy]
    exact ⟨rfl, rfl⟩
  | sourceRoots locators =>
    rw [hstrategy] at hroots
    cases hroots
  | stub =>
    have hany : onlyExisting = false := by
      simpa [Skips, hstrategy, Strategy.isAuthoritative] using hasked
    rw [ask_stub hstrategy, Strategy.offers, hany]
    exact ⟨rfl, rfl⟩

theorem guarded_of_rootless (hroots : e.strategy.isSourceRoots = false) :
    Guarded sources name [e] := by
  refine .inl fun pre locators post hsplit => ?_
  have hmem : .sourceRoots locators ∈ [e].map (·.strategy) :=
    hsplit ▸ List.mem_append_right _ List.mem_cons_self
  have hstrategy : .sourceRoots locators = e.strategy := List.mem_singleton.mp hmem
  rw [← hstrategy] at hroots
  cases hroots

/-- A faithful entry answers with what its strategy offers, from memory or not. -/
theorem Responds.offers (h : Responds tree onlyExisting name e sources answer e' sources')
    (he : e.Faithful tree sources) (hroots : e.strategy.isSourceRoots = false) :
    answer = e.strategy.offers onlyExisting sources name ∧ sources' = sources := by
  cases h with
  | skipped hskips =>
    obtain ⟨rfl, hstub⟩ : onlyExisting = true ∧ e.strategy.isAuthoritative = false := by
      simpa [Skips] using hskips
    cases hstrategy : e.strategy with
    | stub => exact ⟨rfl, rfl⟩
    | _ =>
      rw [hstrategy] at hstub
      cases hstub
  | found hasked hremembered =>
    obtain ⟨hask, _⟩ :=
      ask_of_found he (guarded_of_rootless hroots) (remembered_found hremembered)
    exact ⟨hask.symm.trans (ask_offers hroots hasked).1, rfl⟩
  | absent hasked hremembered =>
    obtain ⟨hask, _⟩ :=
      ask_of_absent he (guarded_of_rootless hroots) (remembered_absent hremembered)
    exact ⟨hask.symm.trans (ask_offers hroots hasked).1, rfl⟩
  | asked hasked _ hask => exact hask ▸ ask_offers hroots hasked

/-- The answer to a question is the first offer. -/
theorem consult_offered (hfaithful : ∀ e ∈ es, e.Faithful tree sources)
    (hroots : ∀ e ∈ es, e.strategy.isSourceRoots = false) (position : Nat) :
    (consult tree onlyExisting name position es sources).answer =
        Strategy.offered onlyExisting sources name position (es.map (·.strategy)) ∧
      (consult tree onlyExisting name position es sources).sources = sources := by
  refine consult_induction (motive := fun position es sources r =>
    (∀ e ∈ es, e.Faithful tree sources) → (∀ e ∈ es, e.strategy.isSourceRoots = false) →
      r.answer = Strategy.offered onlyExisting sources name position (es.map (·.strategy)) ∧
        r.sources = sources) ?nil ?passed ?answered position es sources hfaithful hroots
  case nil => exact fun _ _ _ _ => ⟨rfl, rfl⟩
  case passed =>
    intro _ e es sources e' sources' _ hresponds r ih hfaithful hroots
    obtain ⟨he, hes⟩ := List.forall_mem_cons.mp hfaithful
    obtain ⟨hroot, hroots⟩ := List.forall_mem_cons.mp hroots
    obtain ⟨hnone, rfl⟩ := hresponds.offers he hroot
    obtain ⟨hrest, hsources⟩ := ih hes hroots
    refine ⟨?_, hsources⟩
    rw [List.map_cons, Strategy.offered, ← hnone]
    exact hrest
  case answered =>
    intro _ e es sources c e' sources' _ hresponds hfaithful hroots
    obtain ⟨hsome, hsources⟩ := hresponds.offers (hfaithful e List.mem_cons_self)
      (hroots e List.mem_cons_self)
    refine ⟨?_, hsources⟩
    rw [List.map_cons, Strategy.offered, ← hsome]

end Rootless

/-- No two names in the classes of a unit that was read share a slot. -/
theorem SourceUnit.IsRead.slots {u : SourceUnit} (h : u.IsRead) :
    u.slots.Nodup ∧ ∀ slot ∈ u.slots, slot.source = u.id := by
  obtain ⟨path, text, hread⟩ := h
  have hslots := SourceUnit.slots_ofEvents u.id path (parse text).events
  rwa [← SourceUnit.eq_ofEvents_of_ofText hread] at hslots

/-- What is reported of a reference that means nothing. -/
def Reference.unresolved (x : Reference) : UnresolvedReference :=
  ⟨x.path, x.owner, x.site, x.ref.name, x.line⟩

namespace Session

variable {s t a b : Session}

/-- No strategy of the chain reads source files. -/
def Rootless (s : Session) : Prop := ∀ e ∈ s.entries, e.strategy.isSourceRoots = false

instance (s : Session) : Decidable s.Rootless :=
  inferInstanceAs (Decidable (∀ e ∈ s.entries, e.strategy.isSourceRoots = false))

theorem Leads.rootless (h : a.Leads b) (hroots : a.Rootless) : b.Rootless := by
  intro e he
  obtain ⟨d, hd, hsame⟩ := exists_same_strategy h.strategies.symm he
  exact hsame ▸ hroots d hd

/-- `t` is sound, and has the units of `s` and its library, apart from what that remembers. -/
structure Fixed (s t : Session) : Prop where
  sound : t.Sound
  rootless : t.Rootless
  sources : t.sources = s.sources
  implicitPackages : t.implicitPackages = s.implicitPackages
  strategies : t.entries.map (·.strategy) = s.entries.map (·.strategy)

theorem Sound.fixed (h : s.Sound) (hroots : s.Rootless) : s.Fixed s := ⟨h, hroots, rfl, rfl, rfl⟩

/-- What a session leads to without a change of its units. -/
theorem Fixed.leads (h : s.Fixed a) (hsound : b.Sound) (hleads : a.Leads b)
    (hsources : b.sources = a.sources) : s.Fixed b := by
  exact ⟨hsound, hleads.rootless h.rootless, hsources.trans h.sources,
    hleads.implicitPackages.trans h.implicitPackages, hleads.strategies.trans h.strategies⟩

/-- The first offer of the library is its answer. -/
theorem Fixed.find (h : s.Fixed a) (onlyExisting : Bool) (name : String) :
    (find onlyExisting name a).1 =
        Strategy.offered onlyExisting s.sources name 0 (s.entries.map (·.strategy)) ∧
      s.Fixed (Session.find onlyExisting name a).2 := by
  obtain ⟨hanswer, hsources⟩ := @consult_offered a.tree onlyExisting a.sources a.entries name
    h.sound.entries h.rootless 0
  obtain ⟨hsound, hleads⟩ := keeps_find onlyExisting name a h.sound
  refine ⟨?_, h.leads hsound hleads ((sources_count _ _).trans hsources)⟩
  rw [← h.strategies, ← h.sources]
  exact hanswer

/-- What a question is answered depends on the units and on the library alone. -/
theorem Fixed.same_answer (ha : s.Fixed a) (hb : s.Fixed b) (onlyExisting : Bool) (name : String) :
    (Session.find onlyExisting name a).1 = (Session.find onlyExisting name b).1 :=
  (ha.find onlyExisting name).1.trans (hb.find onlyExisting name).1.symm

/-- What a name means depends on the units and on the library alone. -/
theorem Fixed.resolveName (ha : s.Fixed a) (hb : s.Fixed b) (u : SourceUnit)
    (context : Option ClassIndex) (name : String) :
    (u.resolveName a.library context name a).1 = (u.resolveName b.library context name b).1 ∧
      s.Fixed (u.resolveName a.library context name a).2 := by
  have hsame : b.library = a.library :=
    congrArg (Surroundings.mk Session.hasClass)
      (hb.implicitPackages.trans ha.implicitPackages.symm)
  rw [hsame]
  have hknown (name : String) : Query.Relates (fun a b => s.Fixed a ∧ s.Fixed b) Eq
      (a.library.isKnown name) (a.library.isKnown name) := by
    intro a b hab
    exact ⟨congrArg Option.isSome (hab.1.same_answer hab.2 true name), (hab.1.find true name).2,
      (hab.2.find true name).2⟩
  obtain ⟨hmeaning, hfixed, _⟩ :=
    Query.relates_resolveName u hknown context name a b ⟨ha, hb⟩
  exact ⟨hmeaning, hfixed⟩

/-! ### Resolving one reference -/

/-- No unit of the session gives a meaning to the reference. -/
def MeansNothing (s : Session) (r : TypeRef) : Prop :=
  ∀ slot context u, r.origin = .written slot context → s.sources.unit? slot.source = some u →
    (u.resolveName s.library context r.name s).1 = none

/-- The reference is resolved already or means nothing. -/
def Decided (s : Session) (r : TypeRef) (known : Resolutions) : Prop :=
  r.isResolved known ∨ s.MeansNothing r

/-- What resolving a reference does. -/
structure Resolves (s : Session) (r : TypeRef) (a b : Session) : Prop where
  fixed : s.Fixed b
  others : ∀ slot, r.origin.slot? ≠ some slot → b.known.find? slot = a.known.find? slot
  decided : s.Decided r b.known
  again : s.Decided r a.known → b.known = a.known

theorem isResolved_congr {known known' : Resolutions} {r : TypeRef}
    (h : ∀ slot, r.origin.slot? = some slot → known.find? slot = known'.find? slot) :
    r.isResolved known = r.isResolved known' := by
  unfold TypeRef.isResolved TypeRef.resolved?
  cases horigin : r.origin with
  | written slot context =>
    dsimp only
    rw [h slot (horigin ▸ rfl)]
  | qualified | typeVariable => rfl

theorem Fixed.record (h : s.Fixed a) (known : Resolutions) : s.Fixed { a with known } :=
  ⟨⟨h.sound.sources, h.sound.entries⟩, h.rootless, h.sources, h.implicitPackages, h.strategies⟩

/-- A resolution that changes nothing but what the library remembers. -/
theorem Fixed.resolves_of_decided (h : s.Fixed b) {r : TypeRef} (hknown : b.known = a.known)
    (hdecided : s.Decided r a.known) : s.Resolves r a b :=
  ⟨h, fun _ _ => by rw [hknown], hknown ▸ hdecided, fun _ => hknown⟩

theorem Fixed.resolves (hs : s.Fixed s) (h : s.Fixed a) (r : TypeRef) :
    s.Resolves r a (resolveRef r a).2 := by
  obtain ⟨written, args, dims, origin⟩ := r
  cases origin with
  | qualified | typeVariable => exact h.resolves_of_decided rfl (.inl rfl)
  | written slot context =>
    have houtcome := outcome_resolveRef written args dims slot context a
    generalize resolveRef ⟨written, args, dims, .written slot context⟩ a = outcome at houtcome ⊢
    cases houtcome with
    | known hknown => exact h.resolves_of_decided rfl (.inl (congrArg Option.isSome hknown))
    | strayed _ hunit =>
      refine h.resolves_of_decided rfl (.inr fun other _ u hother hu => ?_)
      cases hother
      rw [← h.sources, hunit] at hu
      cases hu
    | @unmeant u b _ hunit hname hkept =>
      obtain ⟨hsame, hfixed⟩ := h.resolveName hs u context written
      rw [hname] at hsame hfixed
      refine hfixed.resolves_of_decided hkept (.inr fun other _ v hother hv => ?_)
      cases hother
      rw [← h.sources, hunit] at hv
      cases hv
      exact hsame.symm
    | @meant u b fullName hunknown hunit hname hkept hmeaning =>
      obtain ⟨hsame, hfixed⟩ := h.resolveName hs u context written
      rw [hname] at hsame hfixed
      refine ⟨hfixed.record _, fun other hother => ?_, .inl (congrArg Option.isSome hmeaning),
        fun hdecided => ?_⟩
      · have hne : slot ≠ other := fun heq => hother (congrArg some heq)
        simp [Table.find?_record, hne, hkept]
      · obtain hresolved | hnothing := hdecided
        · rw [isResolved_written, hunknown] at hresolved
          cases hresolved
        · have hnone := hnothing slot context u rfl (h.sources ▸ hunit)
          cases hsame.trans hnone

/-! ### Resolving references in turn -/

/-- Resolves references in turn, and reports those that mean nothing then. -/
def report : List Reference → Query (List UnresolvedReference)
  | [] => pure []
  | x :: xs => do
    let _ ← resolveRef x.ref
    let isResolved := x.ref.isResolved (← get).known
    let rest ← report xs
    pure (if isResolved then rest else x.unresolved :: rest)

variable {x : Reference} {xs : List Reference}

theorem report_cons (x : Reference) (xs : List Reference) (a : Session) :
    report (x :: xs) a =
      let b := (resolveRef x.ref a).2
      (if x.ref.isResolved b.known then (report xs b).1 else x.unresolved :: (report xs b).1,
        (report xs b).2) := rfl

theorem report_append (xs ys : List Reference) :
    report (xs ++ ys) = report xs >>= fun rs => report ys >>= fun rs' => pure (rs ++ rs') := by
  funext a
  induction xs generalizing a with
  | nil => rfl
  | cons x xs ih =>
    simp only [List.cons_append, report_cons, ih, bind_apply]
    split <;> rfl

/-- Reports on parts, one after the other, are a report on the whole. -/
theorem report_flatMap {β γ : Type} {q : γ → Query β} {found : β → List UnresolvedReference}
    {parts : γ → List Reference} (h : ∀ c, (q c >>= fun b => pure (found b)) = report (parts c))
    (cs : List γ) :
    (cs.mapM q >>= fun bs => pure (bs.flatMap found)) = report (cs.flatMap parts) := by
  induction cs with
  | nil => rfl
  | cons c cs ih =>
    rw [List.flatMap_cons, report_append, ← h, ← ih]
    simp [List.mapM_cons]

theorem report_flatten {γ : Type} {q : γ → Query (List UnresolvedReference)}
    {parts : γ → List Reference} (h : ∀ c, q c = report (parts c)) (cs : List γ) :
    (cs.mapM q >>= fun found => pure found.flatten) = report (cs.flatMap parts) := by
  have hparts := report_flatMap (fun c => (bind_pure (q c)).trans (h c)) cs
  simpa only [List.flatMap_id'] using hparts

theorem unresolvedAmong_eq (path : FilePath) (owner : String) (site : TypeSite) (line : Nat)
    (rs : List TypeRef) : unresolvedAmong path owner site line rs =
      report (rs.map fun r => ⟨path, owner, site, line, r⟩) := by
  induction rs with
  | nil => rfl
  | cons r rs ih =>
    rw [unresolvedAmong, ih]
    rfl

theorem unresolvedIn_eq (path : FilePath) (c : Class) : unresolvedIn path c =
    report (c.typeRefs.flatMap fun site =>
      site.ref.spread.map fun r => ⟨path, c.fullName, site.site, site.line, r⟩) :=
  report_flatten (fun site : SitedRef =>
    unresolvedAmong_eq path c.fullName site.site site.line site.ref.spread) c.typeRefs

/-- The references of a session are reported in the order in which they are listed. -/
theorem unresolved_eq (s : Session) : unresolved s = report s.sources.references s := by
  have hunit (u : SourceUnit) : (u.classes.mapM (unresolvedIn u.path) >>= fun found =>
      pure found.flatten) = report (u.classes.flatMap fun c => c.typeRefs.flatMap fun site =>
        site.ref.spread.map fun r => ⟨u.path, c.fullName, site.site, site.line, r⟩) :=
    report_flatten (unresolvedIn_eq u.path) u.classes
  have hall := report_flatMap hunit s.sources.units
  simp only [List.flatMap_def, ← List.flatten_flatten] at hall
  exact congrFun hall s

/-- The slots of the names of references. -/
def slotsOf (xs : List Reference) : List Slot := xs.flatMap (·.ref.origin.slot?.toList)

/-- What a report leaves behind and says. -/
structure Reports (s : Session) (xs : List Reference) (rs : List UnresolvedReference)
    (a b : Session) : Prop where
  fixed : s.Fixed b
  others : ∀ slot, slot ∉ slotsOf xs → b.known.find? slot = a.known.find? slot
  reported : rs = (xs.filter fun x => !x.ref.isResolved b.known).map Reference.unresolved
  decided : ∀ x ∈ xs, s.Decided x.ref b.known

/-- If no two references share a slot, then what is reported is what means nothing in the end. -/
theorem Fixed.reports (hs : s.Fixed s) (h : s.Fixed a) (hslots : (slotsOf xs).Nodup) :
    s.Reports xs (report xs a).1 a (report xs a).2 := by
  induction xs generalizing a with
  | nil => exact ⟨h, fun _ _ => rfl, rfl, by simp⟩
  | cons x xs ih =>
    have hfirst := hs.resolves h x.ref
    obtain ⟨_, hrest, hdisjoint⟩ := List.nodup_append.mp (hslots : (_ ++ slotsOf xs).Nodup)
    obtain ⟨hfixed, hothers, hreported, hdecided⟩ := ih hfirst.fixed hrest
    -- Nothing that comes behind touches the slot of the first reference.
    have hsame : x.ref.isResolved (report xs (resolveRef x.ref a).2).2.known =
        x.ref.isResolved (resolveRef x.ref a).2.known :=
      isResolved_congr fun slot hslot => hothers slot fun hmem =>
        hdisjoint slot (by simp [hslot]) slot hmem rfl
    rw [report_cons]
    refine ⟨hfixed, fun slot hslot => ?_, ?_, List.forall_mem_cons.mpr ⟨?_, hdecided⟩⟩
    · obtain ⟨hne, hslot⟩ := not_or.mp (mt List.mem_append.mpr hslot)
      rw [hothers slot hslot, hfirst.others slot fun heq => hne (by simp [heq])]
    · dsimp only
      rw [List.filter_cons, hsame]
      cases x.ref.isResolved (resolveRef x.ref a).2.known <;> simp [← hreported]
    · exact hfirst.decided.imp_left hsame.trans

/-- A report on references that are resolved already or mean nothing records no meaning. -/
theorem Fixed.known_report (hs : s.Fixed s) (h : s.Fixed a)
    (hdecided : ∀ x ∈ xs, s.Decided x.ref a.known) : (report xs a).2.known = a.known := by
  induction xs generalizing a with
  | nil => rfl
  | cons x xs ih =>
    obtain ⟨hx, hxs⟩ := List.forall_mem_cons.mp hdecided
    have hfirst := hs.resolves h x.ref
    have hknown := hfirst.again hx
    rw [report_cons]
    exact (ih hfirst.fixed (hknown ▸ hxs)).trans hknown

/-! ### Whole sessions -/

theorem slotsOf_references (sources : SourceSet) :
    slotsOf sources.references = sources.units.flatMap SourceUnit.slots := by
  simp only [slotsOf, SourceSet.references, List.flatMap_assoc, List.flatMap_map]
  simp only [← List.filterMap_eq_flatMap_toList]
  rfl

/-- No two names in the units of a session share a slot. -/
theorem Reachable.nodup_slots (h : s.Reachable) : (slotsOf s.sources.references).Nodup := by
  have hslots (u : SourceUnit) (hu : u ∈ s.sources.units) := (h.regular.read u hu).slots
  rw [slotsOf_references, List.nodup_flatMap]
  refine ⟨fun u hu => (hslots u hu).1, ?_⟩
  refine (List.pairwise_map.mp h.isFilled.indexed.distinct).imp_of_mem fun {u v} hu hv hne => ?_
  intro slot hslot hslot'
  exact hne (((hslots u hu).2 slot hslot).symm.trans ((hslots v hv).2 slot hslot'))

/-- In any session whose chain has no source roots, a report has one entry for each address of a
reference that is unresolved behind it, and none for any other: with the path of the unit, the full
name of the class, the place and the line of the outermost reference, and the name as written. The
next report is the same. -/
theorem unresolved_exact (h : s.Reachable) (hroots : s.Rootless) :
    let rs := (unresolved s).1
    let t := (unresolved s).2
    Enumerates (fun a => ((s.sources.reference? a).filter fun x =>
        !x.ref.isResolved t.known).map Reference.unresolved) rs ∧
      t.sources = s.sources ∧ (unresolved t).1 = rs := by
  have hs := h.regular.sound.fixed hroots
  have hreport := hs.reports hs h.nodup_slots
  rw [← unresolved_eq] at hreport
  intro rs t
  have hagain := hs.reports hreport.fixed h.nodup_slots
  have hknown := hs.known_report hreport.fixed hreport.decided
  have hsources : t.sources = s.sources := hreport.fixed.sources
  refine ⟨?_, hsources, ?_⟩
  · change Enumerates _ (unresolved s).1
    rw [hreport.reported]
    exact (s.sources.enumerates_reference?.filter _).map _
  · rw [unresolved_eq, hsources, hagain.reported, hknown]
    exact hreport.reported.symm

/-- A bound of a wildcard is reported under the field, and once. -/
theorem unresolved_exact_wildcard :
    let s := (converse [.add (.text ⟨"A.java"⟩ "class A \x7b java.util.List<? super Gone> f; \x7d")]
      (standard .standard (.empty ⟨"/"⟩))).2
    s.Reachable ∧ s.Rootless ∧ (unresolved s).1 = [⟨⟨"A.java"⟩, "A", .field "f", "Gone", 1⟩] ∧
      (unresolved (unresolved s).2).1 = (unresolved s).1 := by
  intro s
  have hreachable : s.Reachable := ⟨_, _, _, _, rfl⟩
  have hrootless : s.Rootless := by
    unfold Rootless
    decide +kernel
  exact ⟨hreachable, hrootless, by decide +kernel, (unresolved_exact hreachable hrootless).2.2⟩

end Session

end JavaModel
