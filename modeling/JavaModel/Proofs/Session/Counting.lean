import JavaModel.Proofs.Library.Counting
import JavaModel.Proofs.Session.Dialogue
import JavaModel.Proofs.Session.Resolving

/-! The counts of a session account for every lookup. `Query.Makes` says which lookups a query
makes, by the way in which it is put together: `classNamed` and `hasClass` are one lookup each,
whatever leaves the library alone is none, and a query behind another adds its own. So the lookups
of a whole dialogue are those of its questions and of all the resolutions in them. -/

namespace JavaModel

namespace Session

/-- A question for one class. -/
inductive Lookup where
  | classNamed (fullName : String)
  | hasClass (fullName : String)
deriving DecidableEq, Repr

namespace Lookup

def onlyExisting : Lookup → Bool
  | classNamed _ => false
  | hasClass _ => true

def fullName : Lookup → String
  | classNamed name | hasClass name => name

/-- The session behind the question. -/
def after (l : Lookup) (s : Session) : Session :=
  match l with
  | classNamed name => (Session.classNamed name s).2
  | hasClass name => (Session.hasClass name s).2

end Lookup

variable {s t : Session} {l : Lookup}

/-- The sessions have the same library: what the strategies have answered, and the counts. -/
structure SameLibrary (s t : Session) : Prop where
  entries : t.entries = s.entries
  hits : t.hits = s.hits
  misses : t.misses = s.misses

theorem SameLibrary.refl (s : Session) : s.SameLibrary s := ⟨rfl, rfl, rfl⟩

theorem SameLibrary.trans {r : Session} (h : r.SameLibrary s) (h' : s.SameLibrary t) :
    r.SameLibrary t :=
  ⟨h'.entries.trans h.entries, h'.hits.trans h.hits, h'.misses.trans h.misses⟩

/-- Some strategy of the chain is authoritative. -/
def HasAuthority (s : Session) : Prop := ∃ e ∈ s.entries, e.strategy.isAuthoritative

instance (s : Session) : Decidable s.HasAuthority :=
  inferInstanceAs (Decidable (∃ e ∈ s.entries, e.strategy.isAuthoritative))

/-- From one session to the other one of the two counts has gone up by one. -/
def CountsOnce (s t : Session) : Prop :=
  (t.hits = s.hits + 1 ∧ t.misses = s.misses) ∨ (t.hits = s.hits ∧ t.misses = s.misses + 1)

theorem CountsOnce.total (h : s.CountsOnce t) : t.hits + t.misses = s.hits + s.misses + 1 := by
  unfold CountsOnce at h
  omega

/-! ### One lookup -/

/-- What a lookup makes of the chain. -/
def Lookup.consulted (l : Lookup) (s : Session) : Consulted :=
  consult s.tree l.onlyExisting l.fullName 0 s.entries s.sources

theorem Lookup.after_eq (l : Lookup) (s : Session) : l.after s =
    Session.count { s with entries := (l.consulted s).entries, sources := (l.consulted s).sources }
      (l.consulted s).tally := by
  cases l <;> rfl

theorem Lookup.entries_after (l : Lookup) (s : Session) :
    (l.after s).entries = (l.consulted s).entries := by
  rw [l.after_eq]
  cases (l.consulted s).tally <;> rfl

theorem HasAuthority.of_strategies (h : s.HasAuthority)
    (hstrategies : t.entries.map (·.strategy) = s.entries.map (·.strategy)) : t.HasAuthority := by
  obtain ⟨e, he, hauthoritative⟩ := h
  obtain ⟨e', he', hstrategy⟩ := exists_same_strategy hstrategies he
  exact ⟨e', he', hstrategy ▸ hauthoritative⟩

theorem HasAuthority.after (h : s.HasAuthority) (l : Lookup) : (l.after s).HasAuthority :=
  h.of_strategies (by rw [l.entries_after]; exact strategies_consult ..)

/-- A lookup is counted if some strategy is authoritative. -/
theorem HasAuthority.counted (h : s.HasAuthority) (l : Lookup) :
    (l.consulted s).tally ≠ .uncounted := by
  intro huncounted
  obtain ⟨e, he, hauthoritative⟩ := h
  exact not_skips hauthoritative ((consult_uncounted huncounted).2 e he)

/-- It is counted once, as a hit or as a miss. -/
theorem HasAuthority.countsOnce (h : s.HasAuthority) (l : Lookup) : s.CountsOnce (l.after s) := by
  have hcounted := h.counted l
  rw [l.after_eq]
  cases htally : (l.consulted s).tally with
  | hit => exact .inl ⟨rfl, rfl⟩
  | miss => exact .inr ⟨rfl, rfl⟩
  | uncounted => exact absurd htally hcounted

/-- It is a hit if no strategy is run for it. -/
theorem HasAuthority.hit_of_unrun (h : s.HasAuthority) (l : Lookup)
    (hunrun : ¬ RunsStrategy l.onlyExisting l.fullName s.entries) :
    (l.after s).hits = s.hits + 1 := by
  have hcounted := h.counted l
  have hmiss : (l.consulted s).tally ≠ .miss := (consult_unrun hunrun 0 s.sources).2.2
  rw [l.after_eq]
  cases htally : (l.consulted s).tally with
  | hit => rfl
  | miss => exact absurd htally hmiss
  | uncounted => exact absurd htally hcounted

/-- A reference that is resolved is not resolved again. -/
theorem resolve_resolved (around : Surroundings Query) {r : TypeRef}
    (h : r.isResolved s.known) : resolve around r s = (r.value s.known, s) := by
  obtain ⟨written, args, dims, origin⟩ := r
  cases origin with
  | qualified | typeVariable => rfl
  | written slot context =>
    obtain ⟨fullName, hknown⟩ := Option.isSome_iff_exists.mp h
    change s.known.find? slot = some fullName at hknown
    rw [resolve_written, hknown]
    change _ = ((s.known.find? slot).getD written, s)
    rw [hknown]
    rfl

end Session

open Session

variable {α β : Type}

/-! ### The lookups of a query -/

/-- The query makes these lookups, in order, which depend on the session that it is put to. -/
inductive Query.Makes : {α : Type} → Query α → (Session → List Lookup) → Prop
  /-- A query that leaves the library alone makes none. -/
  | quiet {α : Type} {q : Query α} (h : ∀ s : Session, s.SameLibrary (q s).2) : Makes q fun _ => []
  | classNamed (name : String) : Makes (classNamed name) fun _ => [.classNamed name]
  | hasClass (name : String) : Makes (hasClass name) fun _ => [.hasClass name]
  | bind {α β : Type} {q : Query α} {f : α → Query β} {first : Session → List Lookup}
      {rest : α → Session → List Lookup} (hq : Makes q first) (hf : ∀ a, Makes (f a) (rest a)) :
      Makes (q >>= f) fun s => first s ++ rest (q s).1 (q s).2

/-- The counts go up by the number of the lookups that a query makes. -/
theorem Query.Makes.counted {q : Query α} {lookups : Session → List Lookup}
    (h : q.Makes lookups) {s : Session} (hs : s.HasAuthority) : (q s).2.HasAuthority ∧
      (q s).2.hits + (q s).2.misses = s.hits + s.misses + (lookups s).length := by
  induction h generalizing s with
  | quiet hquiet =>
    obtain ⟨hentries, hhits, hmisses⟩ := hquiet s
    exact ⟨hs.of_strategies (by rw [hentries]), by rw [hhits, hmisses]; rfl⟩
  | classNamed name => exact ⟨hs.after (.classNamed name), (hs.countsOnce (.classNamed name)).total⟩
  | hasClass name => exact ⟨hs.after (.hasClass name), (hs.countsOnce (.hasClass name)).total⟩
  | bind hq hf ihq ihf =>
    obtain ⟨hmiddle, hfirst⟩ := ihq hs
    obtain ⟨hlast, hrest⟩ := ihf _ hmiddle
    refine ⟨hlast, ?_⟩
    rw [List.length_append, ← Nat.add_assoc, ← hfirst]
    exact hrest

/-- It can be told which lookups the query makes. -/
def Query.Traced (q : Query α) : Prop := ∃ lookups, q.Makes lookups

namespace Query

variable {q : Query α} {f : α → Query β}

theorem traced_quiet (h : ∀ s : Session, s.SameLibrary (q s).2) : Traced q := ⟨_, .quiet h⟩

theorem traced_pure (a : α) : Traced (pure a) := traced_quiet .refl

theorem traced_get : Traced (get : Query Session) := traced_quiet .refl

theorem Traced.bind (hq : Traced q) (hf : ∀ a, Traced (f a)) : Traced (q >>= f) := by
  obtain ⟨first, hfirst⟩ := hq
  choose rest hrest using hf
  exact ⟨_, hfirst.bind hrest⟩

theorem Traced.ite {c : Prop} [Decidable c] {r : Query α} (hq : Traced q) (hr : Traced r) :
    Traced (if c then q else r) := by
  split
  · exact hq
  · exact hr

theorem Traced.mapM {γ : Type} {g : γ → Query α} (h : ∀ c, Traced (g c)) (cs : List γ) :
    Traced (cs.mapM g) := by
  induction cs with
  | nil => exact traced_pure []
  | cons c cs ih =>
    rw [List.mapM_cons]
    exact (h c).bind fun _ => ih.bind fun _ => traced_pure _

end Query

namespace Session

open Query

/-! ### Resolution -/

theorem traced_classNamed (name : String) : Traced (classNamed name) := ⟨_, .classNamed name⟩

theorem traced_hasClass (name : String) : Traced (hasClass name) := ⟨_, .hasClass name⟩

theorem traced_firstKnown {isKnown : String → Query Bool} (h : ∀ name, Traced (isKnown name))
    (names : List String) : Traced (firstKnown isKnown names) := by
  induction names with
  | nil => exact traced_pure none
  | cons name names ih => exact (h name).bind fun _ => .ite (traced_pure _) ih

theorem traced_resolveSimple (u : SourceUnit) {around : Surroundings Query}
    (h : ∀ name, Traced (around.isKnown name)) (context : Option ClassIndex) (name : String) :
    Traced (u.resolveSimple around context name) := by
  unfold SourceUnit.resolveSimple
  split
  · exact traced_pure _
  · exact traced_firstKnown h _

theorem traced_resolveName (u : SourceUnit) {around : Surroundings Query}
    (h : ∀ name, Traced (around.isKnown name)) (context : Option ClassIndex) (name : String) :
    Traced (u.resolveName around context name) := by
  unfold SourceUnit.resolveName
  split
  · exact traced_resolveSimple u h context name
  · refine (traced_resolveSimple u h context _).bind fun outer => ?_
    cases outer with
    | some outer => exact traced_pure _
    | none =>
      exact (h name).bind fun _ => .ite (traced_pure _) (.ite (traced_pure _) (traced_pure _))

theorem traced_resolve {around : Surroundings Query} (h : ∀ name, Traced (around.isKnown name))
    (r : TypeRef) : Traced (resolve around r) := by
  unfold resolve
  split
  · exact traced_pure _
  · exact traced_pure _
  · refine traced_get.bind fun s => ?_
    split
    · exact traced_pure _
    split
    · exact traced_pure _
    refine (traced_resolveName _ h _ _).bind fun meaning => ?_
    cases meaning with
    | none => exact traced_pure _
    | some fullName =>
      exact (traced_quiet fun s => ⟨rfl, rfl, rfl⟩).bind fun _ => traced_pure fullName

theorem traced_resolveRef (r : TypeRef) : Traced (resolveRef r) :=
  traced_get.bind fun _ => traced_resolve traced_hasClass r

mutual

theorem traced_genericValue {around : Surroundings Query}
    (h : ∀ r, Traced (resolve around r)) (r : TypeRef) : Traced (genericValue around r) := by
  obtain ⟨name, args, dims, origin⟩ := r
  exact (h _).bind fun _ => (traced_genericArgs h args).bind fun _ => traced_pure _

theorem traced_genericArgs {around : Surroundings Query} (h : ∀ r, Traced (resolve around r))
    (as : List (Argument TypeRef)) : Traced (genericArgs around as) := by
  cases as with
  | nil => exact traced_pure _
  | cons a as =>
    exact (traced_genericArg h a).bind fun _ => (traced_genericArgs h as).bind fun _ =>
      traced_pure _

theorem traced_genericArg {around : Surroundings Query} (h : ∀ r, Traced (resolve around r))
    (a : Argument TypeRef) : Traced (genericArg around a) := by
  cases a with
  | exactly t => exact traced_genericValue h t
  | unbounded => exact traced_pure _
  | extending t | above t => exact (traced_genericValue h t).bind fun _ => traced_pure _

end

/-! ### Members and classes above -/

theorem traced_parameterType (p : Parameter) : Traced (parameterType p) :=
  (traced_resolveRef p.type).bind fun _ => traced_pure _

theorem traced_parameterTypes (m : Method) : Traced (parameterTypes m) :=
  .mapM traced_parameterType m.parameters

theorem traced_hasSignature (m : Method) (name : String) (types : List String) :
    Traced (hasSignature m name types) :=
  .ite ((traced_parameterTypes m).bind fun _ => traced_pure _) (traced_pure _)

theorem traced_firstWithSignature (name : String) (types : List String) (ms : List Method) :
    Traced (firstWithSignature name types ms) := by
  induction ms with
  | nil => exact traced_pure _
  | cons m ms ih => exact (traced_hasSignature m name types).bind fun _ => .ite (traced_pure _) ih

theorem traced_superclassName (c : Class) : Traced (superclassName c) := by
  unfold superclassName
  split
  · exact (traced_resolveRef _).bind fun _ => traced_pure _
  · exact traced_pure _

theorem traced_superclassOf (c : Class) : Traced (superclassOf c) := by
  refine (traced_superclassName c).bind fun name => ?_
  cases name with
  | some name => exact traced_classNamed name
  | none => exact traced_pure _

theorem traced_findAll (rs : List TypeRef) : Traced (findAll rs) := by
  induction rs with
  | nil => exact traced_pure _
  | cons r rs ih =>
    exact (traced_resolveRef r).bind fun name => (traced_classNamed name).bind fun _ =>
      ih.bind fun _ => traced_pure _

theorem traced_directSupertypes (c : Class) : Traced (directSupertypes c) :=
  (traced_superclassOf c).bind fun _ => (traced_findAll c.interfaces).bind fun _ => traced_pure _

theorem traced_walkWithin (n : Nat) (seen : List String) (queue : List Answer) :
    Traced (walkWithin n seen queue) := by
  induction n generalizing seen queue with
  | zero => cases queue <;> exact traced_pure _
  | succ n ih =>
    cases queue with
    | nil => exact traced_pure _
    | cons a queue =>
      exact (traced_directSupertypes a.found).bind fun _ => (ih _ _).bind fun _ => traced_pure _

/-- A walk makes the lookups of one whose bound it does not meet. Without an end to it, it has made
none that a session behind it could count. -/
theorem traced_ancestors (c : Class) : Traced (ancestors c) := by
  have hbound (s : Session) : ∃ bound : Option Nat,
      ancestors c s = (bound.elim (pure none) fun n => ancestorsWithin n c : Query _) s := by
    obtain ⟨n, _, heq⟩ | ⟨_, heq⟩ := ancestors_cases c s
    · exact ⟨some n, heq⟩
    · exact ⟨none, heq⟩
  choose bound hbound using hbound
  have hwalk : ancestors c = (fun s => (bound s, s) : Query (Option Nat)) >>= fun bound =>
      bound.elim (pure none) fun n => ancestorsWithin n c := funext hbound
  rw [hwalk]
  refine (traced_quiet .refl).bind fun bound => ?_
  cases bound with
  | none => exact traced_pure none
  | some n => exact (traced_directSupertypes c).bind fun _ => traced_walkWithin n _ _

theorem traced_isA (c : Class) (fullName : String) : Traced (isA c fullName) :=
  .ite (traced_pure _) ((traced_ancestors c).bind fun _ => traced_pure _)

/-! ### Checks -/

theorem traced_unresolvedAmong (path : FilePath) (owner : String) (site : TypeSite) (line : Nat)
    (rs : List TypeRef) : Traced (unresolvedAmong path owner site line rs) := by
  induction rs with
  | nil => exact traced_pure _
  | cons r rs ih =>
    exact (traced_resolveRef r).bind fun _ => traced_get.bind fun _ => ih.bind fun _ =>
      traced_pure _

theorem traced_unresolved : Traced unresolved := by
  refine traced_get.bind fun s => (Traced.mapM (fun u => ?_) _).bind fun _ => traced_pure _
  refine Traced.mapM (fun c => ?_) _
  exact (Traced.mapM (fun site => traced_unresolvedAmong _ _ _ _ _) _).bind fun _ => traced_pure _

/-! ### Dialogues -/

theorem traced_ask (q : Question) : Traced (ask q) := by
  have hget {f : Session → Reply} : Traced (do pure (f (← get))) :=
    traced_get.bind fun _ => traced_pure _
  cases q with
  | classNamed n => exact (traced_classNamed n).bind fun _ => traced_pure _
  | hasClass n => exact (traced_hasClass n).bind fun _ => traced_pure _
  | resolve r => exact (traced_resolveRef r).bind fun _ => traced_pure _
  | resolveAmongUnits r =>
    have hunits (name : String) : Traced (onlySources.isKnown name) :=
      traced_get.bind fun _ => traced_pure _
    exact (traced_resolve hunits r).bind fun _ => traced_pure _
  | genericValue r =>
    exact traced_get.bind fun _ =>
      (traced_genericValue (traced_resolve traced_hasClass) r).bind fun _ => traced_pure _
  | superclassName c => exact (traced_superclassName c).bind fun _ => traced_pure _
  | superclassOf c => exact (traced_superclassOf c).bind fun _ => traced_pure _
  | interfacesOf c => exact (traced_findAll c.interfaces).bind fun _ => traced_pure _
  | ancestors c => exact (traced_ancestors c).bind fun _ => traced_pure _
  | isA c n => exact (traced_isA c n).bind fun _ => traced_pure _
  | parameterTypes m => exact (traced_parameterTypes m).bind fun _ => traced_pure _
  | signature m =>
    have hsignature : Traced (signature m) :=
      (traced_parameterTypes m).bind fun _ => traced_pure _
    exact hsignature.bind fun _ => traced_pure _
  | hasSignature m n types => exact (traced_hasSignature m n types).bind fun _ => traced_pure _
  | method? c n types =>
    exact (traced_firstWithSignature n types c.methods).bind fun _ => traced_pure _
  | constructor? c types =>
    exact (traced_firstWithSignature c.name types c.constructors).bind fun _ => traced_pure _
  | unresolved => exact traced_unresolved.bind fun _ => traced_pure _
  | check =>
    have hcheck : Traced check := traced_unresolved.bind fun _ => traced_pure _
    exact hcheck.bind fun _ => traced_pure _
  | isResolved | unit? | declared | counts | units | classes | packages => exact hget

theorem traced_insertRead (read : Except SourceError SourceUnit) : Traced (insertRead read) := by
  cases read with
  | error e => exact traced_pure _
  | ok u => exact (traced_quiet fun s => ⟨rfl, rfl, rfl⟩).bind fun _ => traced_pure _

theorem traced_addText (path : FilePath) (text : String) : Traced (addText path text) :=
  (traced_quiet fun _ => ⟨rfl, rfl, rfl⟩).bind fun _ => traced_insertRead _

theorem traced_addSource (x : Source) : Traced (addSource x) := by
  cases x with
  | text path text => exact traced_addText path text
  | reader path given =>
    exact (traced_quiet fun _ => ⟨rfl, rfl, rfl⟩).bind fun _ => traced_insertRead _
  | file path =>
    refine traced_get.bind fun s => ?_
    split
    · exact traced_pure _
    · exact traced_addText path _

theorem sameLibrary_insertAll (read : List (FilePath × Except SourceError SourceUnit))
    (s : Session) : s.SameLibrary (insertAll read s).2 := by
  induction read generalizing s with
  | nil => exact .refl s
  | cons first read ih =>
    obtain ⟨p, e | u⟩ := first
    · rw [state_insertAll_error]
      split
      · exact ih s
      · exact .refl s
    · rw [state_insertAll_ok]
      have hinsert : s.SameLibrary (insert u s).2 := ⟨rfl, rfl, rfl⟩
      exact hinsert.trans (ih _)

theorem traced_loadTree (order : Nat → Nat) (dir : FilePath) : Traced (loadTree order dir) := by
  refine traced_quiet fun s => ?_
  obtain hsame | hfiles := state_loadTree order dir s
  · rw [hsame]
    exact .refl s
  · rw [hfiles]
    have hset (n : Nat) : s.SameLibrary { s with sources := { s.sources with nextId := n } } :=
      ⟨rfl, rfl, rfl⟩
    exact (hset _).trans (sameLibrary_insertAll _ _)

theorem traced_respond (turn : Turn) : Traced (respond turn) := by
  cases turn with
  | ask q => exact traced_ask q
  | add x => exact (traced_addSource x).bind fun _ => traced_pure _
  | addTree numbering dir =>
    exact traced_get.bind fun _ => .ite ((traced_loadTree numbering.order dir).bind fun _ =>
      traced_pure _) ((traced_loadTree id dir).bind fun _ => traced_pure _)

theorem traced_converse (ts : List Turn) : Traced (converse ts) := .mapM traced_respond ts

/-! ### The counts -/

/-- The counts account for every lookup. In a run over a chain with an authoritative strategy the
hits and the misses are together as many as the lookups that the turns make, those of resolutions
and walks upwards included. Each lookup counts once, and is a hit if no strategy is run for it; what
is resolved already is resolved without any. -/
theorem lookups_counted {options : SessionOptions} {tree : FileTree} {parts : List ChainPart}
    (h : (start options tree parts).HasAuthority) :
    (∀ ts : List Turn, ∃ lookups, Query.Makes (converse ts) lookups) ∧
    (∀ ts lookups, Query.Makes (converse ts) lookups →
      let s := (converse ts (start options tree parts)).2
      s.HasAuthority ∧ s.hits + s.misses = (lookups (start options tree parts)).length) ∧
    (∀ s, s.HasAuthority → ∀ l : Lookup, s.CountsOnce (l.after s) ∧
      (¬ RunsStrategy l.onlyExisting l.fullName s.entries → (l.after s).hits = s.hits + 1)) ∧
    ∀ (s : Session) (around : Surroundings Query) (r : TypeRef), r.isResolved s.known →
      resolve around r s = (r.value s.known, s) := by
  refine ⟨traced_converse, fun ts lookups hmakes => ?_, fun s hs l => ?_,
    fun s around r hresolved => resolve_resolved around hresolved⟩
  · obtain ⟨hauthority, htotal⟩ := hmakes.counted h
    exact ⟨hauthority, htotal.trans (Nat.zero_add _)⟩
  · exact ⟨hs.countsOnce l, hs.hit_of_unrun l⟩

/-- Each report of what is unresolved asks anew for the class that is missing, but not for the one
that was found. -/
theorem lookups_counted_reports :
    let first := start .standard (.empty ⟨"/"⟩)
      [.parsedSources, .registry (.ofList [.plain .plainClass "p.B"])]
    let ts : List Turn := [
      .add (.text ⟨"A.java"⟩ "package p; class A extends B \x7b Gone g; \x7d"),
      .ask .unresolved, .ask .unresolved, .ask (.classNamed "p.B")]
    first.HasAuthority ∧ (converse ts first).2.hits = 1 ∧ (converse ts first).2.misses = 5 ∧
      ∃ lookups, Query.Makes (converse ts) lookups ∧ (lookups first).length = 6 := by
  intro first ts
  have hauthority : first.HasAuthority := by decide +kernel
  have hcounts : (converse ts first).2.hits = 1 ∧ (converse ts first).2.misses = 5 := by
    decide +kernel
  clear_value ts
  obtain ⟨hmakes, hcounted, -⟩ := lookups_counted hauthority
  obtain ⟨lookups, hlookups⟩ := hmakes ts
  have htotal : (converse ts first).2.hits + (converse ts first).2.misses =
      (lookups first).length := (hcounted ts lookups hlookups).2
  refine ⟨hauthority, hcounts.1, hcounts.2, lookups, hlookups, ?_⟩
  rw [← htotal, hcounts.1, hcounts.2]

end Session

end JavaModel
