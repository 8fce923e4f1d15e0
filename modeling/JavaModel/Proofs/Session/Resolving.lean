import JavaModel.Proofs.Library.Exhaustion
import JavaModel.Proofs.Session.Run

/-! Resolving a reference twice. A meaning once found is kept. A search that fails may still have
read files, and a unit read for one of the names sought may declare another one of them that was
asked for before. The second search then finds what the first one missed, and this is the only way
in which the two can differ. -/

namespace JavaModel

namespace SourceUnit

/-- The full names that are asked about when neither the unit nor the spelling of a name settles
what it means. -/
def namesSought (u : SourceUnit) (implicitPackages : List String) (name : String) : List String :=
  match splitHead name with
  | (_, none) => u.candidates implicitPackages name
  | (head, some _) => u.candidates implicitPackages head ++ [name]

/-- Neither the unit nor the spelling of a name settles what it means. -/
def LeavesOpen (u : SourceUnit) (context : Option ClassIndex) (name : String) : Prop :=
  match splitHead name with
  | (_, none) =>
    ((ImportScope.ofImports u.imports).single.find? name).or (u.inScope? context name) = none
  | (head, some _) =>
    ((ImportScope.ofImports u.imports).single.find? head).or (u.inScope? context head) = none ∧
      isPackageLike head = false

variable {u : SourceUnit} {around : Surroundings Query} {context : Option ClassIndex}
  {name : String} {s : Session}

theorem firstKnown_append (isKnown : String → Query Bool) (names more : List String)
    (s : Session) :
    firstKnown isKnown (names ++ more) s =
      match firstKnown isKnown names s with
      | (some found, t) => (some found, t)
      | (none, t) => firstKnown isKnown more t := by
  induction names generalizing s with
  | nil => rfl
  | cons name names ih =>
    rw [List.cons_append, firstKnown, firstKnown]
    change (if (isKnown name s).1 then _ else _ : Query _) (isKnown name s).2 =
      match (if (isKnown name s).1 then _ else _ : Query _) (isKnown name s).2 with
      | (some found, t) => (some found, t)
      | (none, t) => firstKnown isKnown more t
    split
    · rfl
    · exact ih _

theorem resolveSimple_open
    (h : ((ImportScope.ofImports u.imports).single.find? name).or (u.inScope? context name)
      = none) :
    u.resolveSimple around context name =
      firstKnown around.isKnown (u.candidates around.implicitPackages name) := by
  rw [resolveSimple, h]

theorem open_of_resolveSimple (h : (u.resolveSimple around context name s).1 = none) :
    ((ImportScope.ofImports u.imports).single.find? name).or (u.inScope? context name) = none := by
  unfold resolveSimple at h
  cases hsettled : ((ImportScope.ofImports u.imports).single.find? name).or
      (u.inScope? context name) with
  | none => rfl
  | some fullName =>
    rw [hsettled] at h
    cases h

/-- Names that are left open are looked for among the names sought. -/
theorem resolveName_of_leavesOpen (h : u.LeavesOpen context name) (s : Session) :
    (u.resolveName around context name s).1.isSome =
        (firstKnown around.isKnown (u.namesSought around.implicitPackages name) s).1.isSome ∧
      (u.resolveName around context name s).2 =
        (firstKnown around.isKnown (u.namesSought around.implicitPackages name) s).2 := by
  unfold LeavesOpen at h
  unfold resolveName namesSought
  generalize splitHead name = parts at h ⊢
  obtain ⟨head, rest⟩ := parts
  cases rest with
  | none =>
    dsimp only at h ⊢
    rw [resolveSimple_open h]
    exact ⟨rfl, rfl⟩
  | some rest =>
    obtain ⟨hopen, hpackage⟩ := h
    dsimp only
    rw [resolveSimple_open hopen, firstKnown_append, Session.bind_apply]
    rcases firstKnown around.isKnown (u.candidates around.implicitPackages head) s with
      ⟨_ | outer, t⟩
    · dsimp only
      rw [Session.bind_apply, firstKnown, Session.bind_apply, hpackage]
      cases (around.isKnown name t).1 <;> exact ⟨rfl, rfl⟩
    · exact ⟨rfl, rfl⟩

theorem leavesOpen_of_none (h : (u.resolveName around context name s).1 = none) :
    u.LeavesOpen context name := by
  unfold resolveName at h
  unfold LeavesOpen
  generalize splitHead name = parts at h ⊢
  obtain ⟨head, rest⟩ := parts
  cases rest with
  | none => exact open_of_resolveSimple h
  | some rest =>
    dsimp only at h ⊢
    rw [Session.bind_apply] at h
    cases hhead : (u.resolveSimple around context head s).1 with
    | some outer =>
      rw [hhead] at h
      cases h
    | none =>
      refine ⟨open_of_resolveSimple hhead, ?_⟩
      rw [hhead] at h
      dsimp only at h
      rw [Session.bind_apply] at h
      cases hpackage : isPackageLike head with
      | false => rfl
      | true =>
        rw [hpackage] at h
        cases hknown : (around.isKnown name (u.resolveSimple around context head s).2).1 <;>
          rw [hknown] at h <;> cases h

end SourceUnit

namespace Session

/-- Every entry of the chain has been asked for the name in vain. -/
def Exhausted (s : Session) (name : String) : Prop := ∀ e ∈ s.entries, e.Exhausted name

/-- The two sessions differ in nothing but the counts of their questions. -/
def CountsOn (s t : Session) : Prop := ∃ hits misses, t = { s with hits, misses }

variable {s t : Session} {name other : String} {names : List String}

theorem CountsOn.trans {r : Session} (h : r.CountsOn s) (h' : s.CountsOn t) : r.CountsOn t := by
  obtain ⟨_, _, rfl⟩ := h
  obtain ⟨hits, misses, rfl⟩ := h'
  exact ⟨hits, misses, rfl⟩

theorem countsOn_count (s : Session) (tally : Tally) : s.CountsOn (s.count tally) := by
  cases tally
  · exact ⟨s.hits + 1, s.misses, rfl⟩
  · exact ⟨s.hits, s.misses + 1, rfl⟩
  · exact ⟨s.hits, s.misses, rfl⟩

theorem CountsOn.sound (h : s.CountsOn t) (hs : s.Sound) : t.Sound := by
  obtain ⟨_, _, rfl⟩ := h
  exact ⟨hs.sources, hs.entries⟩

/-- A question for an existing class changes entries, units and counts as its outcome says. -/
theorem state_hasClass (name : String) (s : Session) :
    CountsOn { s with
      entries := (consult s.tree true name 0 s.entries s.sources).entries,
      sources := (consult s.tree true name 0 s.entries s.sources).sources } (hasClass name s).2 :=
  countsOn_count _ _

theorem entries_hasClass (name : String) (s : Session) :
    (hasClass name s).2.entries = (consult s.tree true name 0 s.entries s.sources).entries := by
  obtain ⟨_, _, h⟩ := state_hasClass name s
  rw [h]

theorem known_hasClass (name : String) (s : Session) : (hasClass name s).2.known = s.known := by
  obtain ⟨_, _, h⟩ := state_hasClass name s
  rw [h]

/-- A question for an existing class that fails exhausts the name, and leaves exhausted names so. -/
theorem exhausted_of_hasClass (h : (hasClass name s).1 = false) :
    (hasClass name s).2.Exhausted name ∧
      ∀ other, s.Exhausted other → (hasClass name s).2.Exhausted other := by
  have hnone : (consult s.tree true name 0 s.entries s.sources).answer = none := by
    simpa using show (consult s.tree true name 0 s.entries s.sources).answer.isSome = false from h
  obtain ⟨hexhausted, hpassed⟩ := exhausted_of_consult hnone
  unfold Exhausted
  rw [entries_hasClass]
  exact ⟨hexhausted, fun other hother => exhausted_of_forall₂ hpassed hother⟩

theorem exhausted_of_firstKnown (h : (firstKnown hasClass names s).1 = none) :
    (∀ name ∈ names, (firstKnown hasClass names s).2.Exhausted name) ∧
      ∀ other, s.Exhausted other → (firstKnown hasClass names s).2.Exhausted other := by
  induction names generalizing s with
  | nil => exact ⟨by simp, fun _ h => h⟩
  | cons name names ih =>
    rw [firstKnown, bind_apply] at h ⊢
    cases hfirst : (hasClass name s).1 with
    | true =>
      rw [hfirst] at h
      cases h
    | false =>
      rw [hfirst] at h
      obtain ⟨hname, hkeeps⟩ := exhausted_of_hasClass hfirst
      obtain ⟨hnames, hkeeps'⟩ := ih h
      refine ⟨List.forall_mem_cons.mpr ⟨hkeeps' name hname, hnames⟩, fun other hother => ?_⟩
      exact hkeeps' other (hkeeps other hother)

/-- A question for an exhausted name finds what a unit declares, or changes nothing but counts. -/
theorem hasClass_of_exhausted (hs : s.Sound) (h : s.Exhausted name) :
    (Declares s.sources s.entries name ∧ (hasClass name s).1 = true) ∨
      (¬ Declares s.sources s.entries name ∧ (hasClass name s).1 = false ∧
        s.CountsOn (hasClass name s).2) := by
  obtain ⟨hdeclares, hsome⟩ | ⟨hnot, hnone, hentries, hsources⟩ :=
    consult_of_exhausted hs.entries h 0
  · exact .inl ⟨hdeclares, hsome⟩
  · refine .inr ⟨hnot, ?_, ?_⟩
    · exact congrArg Option.isSome hnone
    · have hstate := state_hasClass name s
      rw [hentries, hsources] at hstate
      exact hstate

theorem firstKnown_of_exhausted (hs : s.Sound) (h : ∀ name ∈ names, s.Exhausted name) :
    ((∃ name ∈ names, Declares s.sources s.entries name) ∧
        (firstKnown hasClass names s).1.isSome) ∨
      ((¬ ∃ name ∈ names, Declares s.sources s.entries name) ∧
        (firstKnown hasClass names s).1 = none ∧ s.CountsOn (firstKnown hasClass names s).2) := by
  induction names generalizing s with
  | nil => exact .inr ⟨by simp, rfl, s.hits, s.misses, rfl⟩
  | cons name names ih =>
    obtain ⟨hname, hnames⟩ := List.forall_mem_cons.mp h
    rw [firstKnown, bind_apply]
    obtain ⟨hdeclares, hfirst⟩ | ⟨hnot, hfirst, hcounts⟩ := hasClass_of_exhausted hs hname
    · rw [hfirst]
      exact .inl ⟨⟨name, List.mem_cons_self .., hdeclares⟩, rfl⟩
    · rw [hfirst]
      have hsound := hcounts.sound hs
      obtain ⟨hits, misses, ht⟩ := id hcounts
      rw [ht] at hsound ⊢
      have hrest := ih hsound hnames
      have hexists : (∃ n ∈ name :: names, Declares s.sources s.entries n) ↔
          Declares s.sources s.entries name ∨ ∃ n ∈ names, Declares s.sources s.entries n := by
        simp
      rw [hexists]
      refine hrest.imp (fun ⟨hdeclares, hsome⟩ => ⟨.inr hdeclares, hsome⟩) ?_
      rintro ⟨hnone, hfound, hcounts'⟩
      exact ⟨not_or.mpr ⟨hnot, hnone⟩, hfound, (ht ▸ hcounts).trans hcounts'⟩

/-! ### Two resolutions in a row -/

/-- The names that a search for the meaning of a reference asks about. -/
def namesSought (s : Session) (r : TypeRef) : List String :=
  match r.origin with
  | .written slot _ =>
    match s.sources.unit? slot.source with
    | some u => u.namesSought s.implicitPackages r.name
    | none => []
  | .qualified | .typeVariable => []

/-- The chain asks the units of the session, and one of them declares a class that a search for the
meaning of a reference asks about. -/
def Answers (s : Session) (r : TypeRef) : Prop :=
  (∃ e ∈ s.entries, e.strategy = .parsedSources) ∧ ∃ name ∈ s.namesSought r, s.sources.contains name

variable {slot : Slot} {context : Option ClassIndex} {written : String}
  {args : List (Argument TypeRef)} {dims : Nat} {u : SourceUnit}

/-- What resolving a written name comes down to. -/
theorem resolve_written (around : Surroundings Query) (s : Session) :
    resolve around ⟨written, args, dims, .written slot context⟩ s =
      match s.known.find? slot with
      | some fullName => (fullName, s)
      | none =>
        match s.sources.unit? slot.source with
        | none => (written, s)
        | some u =>
          match u.resolveName around context written s with
          | (some fullName, t) => (fullName, { t with known := t.known.record slot fullName })
          | (none, t) => (written, t) := by
  rw [resolve]
  dsimp only
  rw [bind_apply]
  simp only [get_apply]
  cases s.known.find? slot with
  | some fullName => rfl
  | none =>
    cases s.sources.unit? slot.source with
    | none => rfl
    | some u =>
      dsimp only
      rw [bind_apply]
      rcases u.resolveName around context written s with ⟨_ | fullName, t⟩ <;> rfl

/-- What resolving a written name for the whole library comes down to. -/
theorem resolveRef_written (s : Session) :
    resolveRef ⟨written, args, dims, .written slot context⟩ s =
      match s.known.find? slot with
      | some fullName => (fullName, s)
      | none =>
        match s.sources.unit? slot.source with
        | none => (written, s)
        | some u =>
          match u.resolveName s.library context written s with
          | (some fullName, t) => (fullName, { t with known := t.known.record slot fullName })
          | (none, t) => (written, t) :=
  resolve_written s.library s

theorem Sound.answers_iff (hs : s.Sound) (hunit : s.sources.unit? slot.source = some u) :
    s.Answers ⟨written, args, dims, .written slot context⟩ ↔
      ∃ name ∈ u.namesSought s.implicitPackages written,
        Declares s.sources s.entries name := by
  have hnames : s.namesSought ⟨written, args, dims, .written slot context⟩
      = u.namesSought s.implicitPackages written := by
    simp only [namesSought, hunit]
  rw [Answers, hnames]
  simp only [hs.sources.contains_iff, Declares]
  tauto

theorem known_firstKnown (names : List String) (s : Session) :
    (firstKnown hasClass names s).2.known = s.known := by
  induction names generalizing s with
  | nil => rfl
  | cons name names ih =>
    rw [firstKnown, bind_apply]
    cases (hasClass name s).1 with
    | true => exact known_hasClass name s
    | false => exact (ih _).trans (known_hasClass name s)

/-- A search for a meaning records none. -/
theorem known_resolveName (u : SourceUnit) (context : Option ClassIndex) (written : String)
    (s : Session) : (u.resolveName s.library context written s).2.known = s.known := by
  have hsimple (name : String) :
      (u.resolveSimple s.library context name s).2.known = s.known := by
    unfold SourceUnit.resolveSimple
    cases ((ImportScope.ofImports u.imports).single.find? name).or (u.inScope? context name) with
    | some fullName => rfl
    | none => exact known_firstKnown _ s
  unfold SourceUnit.resolveName
  rcases SourceUnit.splitHead written with ⟨head, _ | rest⟩
  · exact hsimple written
  · dsimp only
    rw [bind_apply]
    cases (u.resolveSimple s.library context head s).1 with
    | some outer => exact hsimple head
    | none =>
      dsimp only
      rw [bind_apply]
      refine Eq.trans ?_ ((known_hasClass written _).trans (hsimple head))
      cases (s.library.isKnown written (u.resolveSimple s.library context head s).2).1 <;>
        cases SourceUnit.isPackageLike head <;> rfl

/-- What resolving a written name comes to. Its meaning is known; or it stands in no unit of the
session; or it is looked for in its unit, and means nothing or is recorded with its meaning. -/
inductive Outcome (s : Session) (slot : Slot) (context : Option ClassIndex) (written : String) :
    String × Session → Prop
  | known {fullName : String} (hknown : s.known.find? slot = some fullName) :
      Outcome s slot context written (fullName, s)
  | strayed (hunknown : s.known.find? slot = none) (hunit : s.sources.unit? slot.source = none) :
      Outcome s slot context written (written, s)
  | unmeant {u : SourceUnit} {t : Session} (hunknown : s.known.find? slot = none)
      (hunit : s.sources.unit? slot.source = some u)
      (hname : u.resolveName s.library context written s = (none, t)) (hkept : t.known = s.known) :
      Outcome s slot context written (written, t)
  | meant {u : SourceUnit} {t : Session} {fullName : String}
      (hunknown : s.known.find? slot = none) (hunit : s.sources.unit? slot.source = some u)
      (hname : u.resolveName s.library context written s = (some fullName, t))
      (hkept : t.known = s.known)
      (hmeaning : (t.known.record slot fullName).find? slot = some fullName) :
      Outcome s slot context written (fullName, { t with known := t.known.record slot fullName })

theorem outcome_resolveRef (written : String) (args : List (Argument TypeRef)) (dims : Nat)
    (slot : Slot) (context : Option ClassIndex) (s : Session) :
    Outcome s slot context written
      (resolveRef ⟨written, args, dims, .written slot context⟩ s) := by
  rw [resolveRef_written]
  cases hknown : s.known.find? slot with
  | some fullName => exact .known hknown
  | none =>
    cases hunit : s.sources.unit? slot.source with
    | none => exact .strayed hknown hunit
    | some u =>
      have hkept := known_resolveName u context written s
      dsimp only
      rcases hname : u.resolveName s.library context written s with ⟨_ | fullName, t⟩ <;>
        rw [hname] at hkept
      · exact .unmeant hknown hunit hname hkept
      · refine .meant hknown hunit hname hkept ?_
        simp [Table.find?_record, show t.known = s.known from hkept, hknown]

/-- A search that failed, and what it leaves behind. -/
structure Failed (s : Session) (u : SourceUnit) (context : Option ClassIndex) (written : String)
    (t : Session) : Prop where
  sound : t.Sound
  leads : s.Leads t
  known : t.known = s.known
  leavesOpen : u.LeavesOpen context written
  exhausted : ∀ name ∈ u.namesSought t.implicitPackages written, t.Exhausted name

/-- In a unit that leaves a name open, what the library knows of the names sought decides. -/
theorem resolveName_library (hopen : u.LeavesOpen context written) (s : Session) :
    (u.resolveName s.library context written s).1.isSome =
        (firstKnown hasClass (u.namesSought s.implicitPackages written) s).1.isSome ∧
      (u.resolveName s.library context written s).2 =
        (firstKnown hasClass (u.namesSought s.implicitPackages written) s).2 :=
  SourceUnit.resolveName_of_leavesOpen hopen s

theorem keeps_resolveName_library (u : SourceUnit) (context : Option ClassIndex)
    (written : String) (s : Session) : (u.resolveName s.library context written).Keeps :=
  keeps_resolveName u keeps_hasClass context written

theorem failed_of_none (hs : s.Sound)
    (hnone : u.resolveName s.library context written s = (none, t)) :
    Failed s u context written t := by
  obtain ⟨hsound, hleads⟩ := keeps_resolveName_library u context written s s hs
  have hopen : u.LeavesOpen context written :=
    SourceUnit.leavesOpen_of_none (congrArg Prod.fst hnone)
  obtain ⟨hsome, hstate⟩ := resolveName_library hopen s
  rw [hnone] at hsound hleads hsome hstate
  have hfirst : (firstKnown hasClass (u.namesSought s.implicitPackages written) s).1 = none := by
    simpa using hsome.symm
  obtain ⟨hexhausted, _⟩ := exhausted_of_firstKnown hfirst
  have ht : t = (firstKnown hasClass (u.namesSought s.implicitPackages written) s).2 := hstate
  refine ⟨hsound, hleads, ?_, hopen, ?_⟩
  · rw [ht]
    exact known_firstKnown _ s
  · rw [hleads.implicitPackages, ht]
    exact hexhausted

/-- Behind a search that failed, the next search for the same name finds a meaning just when a unit
declares one of the names sought; otherwise it fails again and changes nothing but counts. -/
theorem Failed.resolveName (h : Failed s u context written t) :
    ((∃ name ∈ u.namesSought t.implicitPackages written, Declares t.sources t.entries name) ∧
        (u.resolveName t.library context written t).1.isSome) ∨
      ((¬ ∃ name ∈ u.namesSought t.implicitPackages written,
          Declares t.sources t.entries name) ∧
        (u.resolveName t.library context written t).1 = none ∧
        t.CountsOn (u.resolveName t.library context written t).2) := by
  obtain ⟨hsome, hstate⟩ := resolveName_library h.leavesOpen t
  rw [hstate]
  obtain ⟨hdeclares, hfound⟩ | ⟨hnot, hnone, hcounts⟩ :=
    firstKnown_of_exhausted h.sound h.exhausted
  · exact .inl ⟨hdeclares, hsome.trans hfound⟩
  · refine .inr ⟨hnot, ?_, hcounts⟩
    rw [hnone] at hsome
    exact Option.isSome_eq_false_iff.mp hsome |> Option.isNone_iff_eq_none.mp

theorem isResolved_written (known : Resolutions) :
    TypeRef.isResolved known ⟨written, args, dims, .written slot context⟩
      = (known.find? slot).isSome := rfl

/-- A reference whose meaning is known is left alone. -/
theorem resolveRef_known {fullName : String} (h : s.known.find? slot = some fullName) :
    resolveRef ⟨written, args, dims, .written slot context⟩ s = (fullName, s) := by
  rw [resolveRef_written, h]

/-- Behind a search that failed, the next resolution differs from it just when the session answers
the reference. -/
theorem Failed.resolveRef_next (h : Failed s u context written t)
    (hknown : s.known.find? slot = none) (hunit : s.sources.unit? slot.source = some u) :
    ((resolveRef ⟨written, args, dims, .written slot context⟩ t).1 = written ∧
        ((resolveRef ⟨written, args, dims, .written slot context⟩ t).2.known.find? slot).isSome
          = (t.known.find? slot).isSome) ↔
      ¬ ((t.known.find? slot).isSome = false ∧
        t.Answers ⟨written, args, dims, .written slot context⟩) := by
  have hunknown : t.known.find? slot = none := by rw [h.known, hknown]
  have hunit' : t.sources.unit? slot.source = some u := h.leads.sources.unit? hunit
  rw [h.sound.answers_iff hunit', resolveRef_written, hunknown, hunit']
  dsimp only
  have hagain := h.resolveName
  rcases hname : u.resolveName t.library context written t with ⟨_ | fullName, t'⟩ <;>
    rw [hname] at hagain
  · obtain ⟨_, hsome⟩ | ⟨hnot, _, hits, misses, rfl⟩ := hagain
    · cases hsome
    · refine iff_of_true ⟨rfl, ?_⟩ fun hanswers => hnot hanswers.2
      exact congrArg Option.isSome hunknown
  · obtain ⟨hanswers, _⟩ | ⟨_, hnone, _⟩ := hagain
    · refine iff_of_false ?_ fun hnot => hnot ⟨rfl, hanswers⟩
      rintro ⟨_, hsame⟩
      have hmeaning : ((t'.known.record slot fullName).find? slot).isSome := by
        simp [Table.find?_record]
      cases hmeaning.symm.trans hsame
    · cases hnone

theorem Sound.resolveRef_next (hs : s.Sound) (r : TypeRef) :
    ((resolveRef r (resolveRef r s).2).1 = (resolveRef r s).1 ∧
        r.isResolved (resolveRef r (resolveRef r s).2).2.known
          = r.isResolved (resolveRef r s).2.known) ↔
      ¬ (r.isResolved (resolveRef r s).2.known = false ∧ (resolveRef r s).2.Answers r) := by
  obtain ⟨written, args, dims, origin⟩ := r
  cases origin with
  | qualified =>
    refine iff_of_true ⟨rfl, rfl⟩ ?_
    rintro ⟨h, _⟩
    cases h
  | typeVariable =>
    refine iff_of_true ⟨rfl, rfl⟩ ?_
    rintro ⟨h, _⟩
    cases h
  | written slot context =>
    simp only [isResolved_written]
    have houtcome := outcome_resolveRef written args dims slot context s
    generalize hfirst : resolveRef ⟨written, args, dims, .written slot context⟩ s = first
      at houtcome
    cases houtcome with
    | known hknown => simp [hfirst, hknown]
    | strayed hunknown hunit => simp [hfirst, hunknown, Answers, namesSought, hunit]
    | unmeant hunknown hunit hname _ =>
      exact (failed_of_none hs hname).resolveRef_next hunknown hunit
    | meant _ _ _ _ hmeaning =>
      rw [resolveRef_known hmeaning]
      simp [hmeaning]

/-- Resolving a reference a second time gives the same name and leaves it as resolved as it was,
except for a reference that is still unresolved when the first search has made a class known among
the units that the search asks about. -/
theorem resolveRef_again (options : SessionOptions) (tree : FileTree) (parts : List ChainPart)
    (ops : List Operation) (r : TypeRef) :
    let first := resolveRef r ((start options tree parts).after ops)
    let second := resolveRef r first.2
    (second.1 = first.1 ∧ r.isResolved second.2.known = r.isResolved first.2.known) ↔
      ¬ (r.isResolved first.2.known = false ∧ first.2.Answers r) :=
  ((sound_start options tree parts).after ops).1.resolveRef_next r

/-- The class is first asked for in its own package, then in a package imported whole. The file
found there declares the class in the first package, so that the second resolution finds it. -/
theorem resolveRef_not_idempotent :
    let files : MemoryFiles := ⟨[(⟨"q/X.java"⟩, "package p; class X {}")]⟩
    let r : TypeRef := ⟨"X", [], 0, .written ⟨⟨0⟩, 0⟩ (some ⟨0⟩)⟩
    let s := (start .standard (.empty ⟨"/"⟩) [.parsedSources, .locators [.memory files]]).after
      [.addText ⟨"A.java"⟩ "package p; import q.*; class A { X f; }"]
    let first := resolveRef r s
    let second := resolveRef r first.2
    (first.1 = "X" ∧ r.isResolved first.2.known = false) ∧
      (second.1 = "p.X" ∧ r.isResolved second.2.known = true) := by
  decide +kernel

end Session

end JavaModel
