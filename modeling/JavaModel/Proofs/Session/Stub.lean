import JavaModel.Proofs.Library.Stub
import JavaModel.Proofs.Session.Relation
import JavaModel.Proofs.Session.Run
import JavaModel.Proofs.Session.Walking

/-! Two sessions of which one has a stub at the end of its chain and is like the other in all else.
Whatever is added to both or asked of both, they stay so: existence, resolution and the units of the
session never depend on the stub, and where classes are asked for, the stub only puts stubs among
them. -/

namespace JavaModel

/-- The answers that are not made up. -/
def withoutStubs (as : List Answer) : List Answer := as.filter fun a => !a.found.isStub

/-- The answers of the second list are those of the first with stubs among them. -/
structure StubsAmong (as bs : List Answer) : Prop where
  rest : withoutStubs bs = as
  madeUp : ∀ b ∈ bs, b.found.isStub → b.found.IsStub

namespace StubsAmong

variable {as bs cs ds : List Answer}

theorem nil : StubsAmong [] [] := ⟨rfl, by simp⟩

/-- Where no answer is made up there are no stubs among them. -/
theorem refl (h : ∀ a ∈ as, a.found.isStub = false) : StubsAmong as as := by
  refine ⟨List.filter_eq_self.mpr fun a ha => by simp [h a ha], fun a ha hstub => ?_⟩
  rw [h a ha] at hstub
  cases hstub

/-- A stub in place of no answer. -/
theorem single {b : Answer} (h : b.found.IsStub) : StubsAmong [] [b] := by
  refine ⟨List.filter_eq_nil_iff.mpr fun a ha => ?_, fun a ha _ => ?_⟩
  · rw [List.mem_singleton.mp ha]
    simp [h.isStub]
  · rwa [List.mem_singleton.mp ha]

theorem append (h : StubsAmong as bs) (h' : StubsAmong cs ds) :
    StubsAmong (as ++ cs) (bs ++ ds) := by
  refine ⟨?_, fun b hb => (List.mem_append.mp hb).elim (h.madeUp b) (h'.madeUp b)⟩
  rw [← h.rest, ← h'.rest]
  exact List.filter_append bs ds

theorem eq_nil (h : StubsAmong as []) : as = [] := h.rest.symm

/-- Of two such lists the second begins with a stub, or both begin with the same answer. -/
theorem cons_cases {b : Answer} (h : StubsAmong as (b :: bs)) :
    b.found.IsStub ∧ StubsAmong as bs ∨
      b.found.isStub = false ∧ ∃ rest, as = b :: rest ∧ StubsAmong rest bs := by
  obtain ⟨rfl, hmadeUp⟩ := h
  obtain ⟨hb, hbs⟩ := List.forall_mem_cons.mp hmadeUp
  cases hstub : b.found.isStub with
  | true =>
    have hrest : withoutStubs (b :: bs) = withoutStubs bs := by simp [withoutStubs, hstub]
    exact .inl ⟨hb hstub, hrest.symm, hbs⟩
  | false =>
    have hrest : withoutStubs (b :: bs) = b :: withoutStubs bs := by simp [withoutStubs, hstub]
    exact .inr ⟨rfl, withoutStubs bs, hrest, rfl, hbs⟩

end StubsAmong

/-- A stub behind a chain that has made no answer up. -/
theorem StubBehind.stubsAmong {onlyExisting : Bool} {r r' : Consulted}
    (h : StubBehind onlyExisting r r') (hgenuine : ∀ a ∈ r.answer, a.found.isStub = false) :
    StubsAmong r.answer.toList r'.answer.toList ∧ (onlyExisting → r.answer = r'.answer) := by
  obtain hsame | ⟨hall, hnone, a, hmade, ha⟩ := h.answer
  · rw [hsame]
    exact ⟨.refl fun a ha => hgenuine a (Option.mem_toList.mp ha), fun _ => rfl⟩
  · rw [hnone, hmade]
    exact ⟨.single ha, fun honly => absurd honly (by simp [hall])⟩

namespace Session

/-- The second session is the first with a stub at the end of its chain, whatever the options say of
a stub and whatever the counts of questions are. -/
def StubAdded (s t : Session) : Prop :=
  s.sources.Placed ∧ ∃ (hasStub : Bool) (last : ChainEntry) (hits misses : Nat), last.OfStub ∧
    t = { s with
      options := { s.options with hasStub }, entries := s.entries ++ [last], hits, misses }

/-- The first session is sound and has no stub, and the second is it with a stub added. -/
structure Beside (s t : Session) : Prop where
  sound : s.Sound
  authoritative : ∀ strategy ∈ s.entries.map (·.strategy), strategy.isAuthoritative
  added : s.StubAdded t

variable {s t : Session}

theorem StubAdded.sources (h : s.StubAdded t) : t.sources = s.sources := by
  obtain ⟨_, _, _, _, _, _, rfl⟩ := h
  rfl

theorem StubAdded.known (h : s.StubAdded t) : t.known = s.known := by
  obtain ⟨_, _, _, _, _, _, rfl⟩ := h
  rfl

theorem StubAdded.tree (h : s.StubAdded t) : t.tree = s.tree := by
  obtain ⟨_, _, _, _, _, _, rfl⟩ := h
  rfl

theorem StubAdded.library (h : s.StubAdded t) : t.library = s.library := by
  obtain ⟨_, _, _, _, _, _, rfl⟩ := h
  rfl

theorem StubAdded.extension (h : s.StubAdded t) : t.options.extension = s.options.extension := by
  obtain ⟨_, _, _, _, _, _, rfl⟩ := h
  rfl

theorem StubAdded.continueOnError (h : s.StubAdded t) :
    t.options.continueOnError = s.options.continueOnError := by
  obtain ⟨_, _, _, _, _, _, rfl⟩ := h
  rfl

theorem StubAdded.count (h : s.StubAdded t) (tally tally' : Tally) :
    (s.count tally).StubAdded (t.count tally') := by
  obtain ⟨hplaced, hasStub, last, hits, misses, hlast, rfl⟩ := h
  cases tally <;> cases tally' <;> exact ⟨hplaced, hasStub, last, _, _, hlast, rfl⟩

end Session

namespace Session

open Query

variable {s t : Session}

/-! ### Additions -/

theorem relates_reserveId : Relates StubAdded Eq reserveId reserveId := by
  rintro s t ⟨hplaced, hasStub, last, hits, misses, hlast, rfl⟩
  exact ⟨rfl, hplaced, hasStub, last, hits, misses, hlast, rfl⟩

theorem relates_insert {u : SourceUnit} (hu : u.Placed) :
    Relates StubAdded Eq (insert u) (insert u) := by
  rintro s t ⟨hplaced, hasStub, last, hits, misses, hlast, rfl⟩
  exact ⟨rfl, hplaced.insert hu, hasStub, last, hits, misses, hlast, rfl⟩

theorem relates_insertRead {read : Except SourceError SourceUnit}
    (h : ∀ u, read = .ok u → u.Placed) :
    Relates StubAdded Eq (insertRead read) (insertRead read) := by
  cases read with
  | error e => exact relates_pure rfl
  | ok u => exact (relates_insert (h u rfl)).bindEq fun _ => relates_pure rfl

theorem relates_addText (path : FilePath) (text : String) :
    Relates StubAdded Eq (addText path text) (addText path text) :=
  relates_reserveId.bindEq fun _ => relates_insertRead fun _ h => (SourceUnit.ofText_places h).2

theorem relates_addReader (path : FilePath) (given : Except ReadFault ByteArray) :
    Relates StubAdded Eq (addReader path given) (addReader path given) :=
  relates_reserveId.bindEq fun _ => relates_insertRead fun _ h => (SourceUnit.ofReader_places h).2

theorem relates_addBytes (path : FilePath) (bytes : ByteArray) :
    Relates StubAdded Eq (addBytes path bytes) (addBytes path bytes) :=
  relates_addReader path (.ok bytes)

theorem relates_addFile (path : FilePath) :
    Relates StubAdded Eq (addFile path) (addFile path) := by
  refine relates_get.bind fun s t hst => ?_
  rw [hst.tree]
  split
  · exact relates_pure rfl
  · exact relates_addText path _

theorem relates_insertAll {read : List (FilePath × Except SourceError SourceUnit)}
    (h : ∀ u ∈ unitsRead read, u.Placed) :
    Relates StubAdded Eq (insertAll read) (insertAll read) := by
  induction read with
  | nil => exact relates_pure rfl
  | cons first read ih =>
    obtain ⟨p, result⟩ := first
    cases result with
    | ok u =>
      rw [unitsRead_ok] at h
      obtain ⟨hu, hrest⟩ := List.forall_mem_cons.mp h
      refine (relates_insert hu).bindEq fun added => (ih hrest).bindEq fun result => ?_
      cases result <;> exact relates_pure rfl
    | error e =>
      rw [unitsRead_error] at h
      refine relates_get.bind fun s t hst => ?_
      rw [hst.continueOnError]
      refine .ite ((ih h).bindEq fun result => ?_) (relates_pure rfl)
      cases result <;> exact relates_pure rfl

theorem relates_addFiles (order : Nat → Nat) (ps : List FilePath) :
    Relates StubAdded Eq (addFiles order ps) (addFiles order ps) := by
  rintro s t ⟨hplaced, hasStub, last, hits, misses, hlast, rfl⟩
  let first := s.sources.nextId
  have hread := (unitsRead_readUnits s.tree (fun n => ⟨first + order n⟩) 0 ps).1
  exact relates_insertAll (fun u hu => (hread u hu).1) _ _
    ⟨hplaced, hasStub, last, hits, misses, hlast, rfl⟩

theorem relates_loadTree (order : Nat → Nat) (dir : FilePath) :
    Relates StubAdded Eq (loadTree order dir) (loadTree order dir) := by
  refine relates_get.bind fun s t hst => ?_
  rw [hst.tree, hst.continueOnError, hst.extension]
  dsimp only
  split
  · exact relates_pure rfl
  · refine (relates_addFiles order _).bindEq fun result => ?_
    cases result <;> exact relates_pure rfl

theorem relates_addTree (dir : FilePath) : Relates StubAdded Eq (addTree dir) (addTree dir) :=
  relates_loadTree id dir

/-- Sessions beside each other stay so when a question keeps the first sound and does to the second
what it does to the first. -/
theorem relates_beside (hq : Relates StubAdded R q q') (hkeeps : q.Keeps) :
    Relates Beside R q q' := by
  intro s t hst
  obtain ⟨hanswers, hstates⟩ := hq s t hst.added
  obtain ⟨hsound, hleads⟩ := hkeeps s hst.sound
  exact ⟨hanswers, hsound, hleads.strategies ▸ hst.authoritative, hstates⟩

/-! ### Questions -/

/-- Without a stub in the chain no answer is made up. -/
theorem Beside.not_stub (h : s.Beside t) {onlyExisting : Bool} {name : String} {a : Answer}
    (ha : (find onlyExisting name s).1 = some a) : a.found.isStub = false := by
  obtain ⟨e, he, hfinds⟩ := finds_of_consult h.sound.entries ha
  exact hfinds.not_stub (placed_consult h.added.1 s.tree onlyExisting name 0 s.entries)
    (h.authoritative e.strategy (List.mem_map_of_mem he))

/-- A question changes both sessions alike, and the stub answers only where nothing else does and
made-up classes count. -/
theorem relates_find (onlyExisting : Bool) (name : String) :
    Relates Beside (fun a b => StubsAmong a.toList b.toList ∧ (onlyExisting → a = b))
      (find onlyExisting name) (find onlyExisting name) := by
  intro s t hst
  have hgenuine : ∀ a ∈ (find onlyExisting name s).1, a.found.isStub = false :=
    fun a => hst.not_stub
  obtain ⟨hsound, hleads⟩ := keeps_find onlyExisting name s hst.sound
  obtain ⟨_, hauthoritative, hplaced, hasStub, last, hits, misses, hlast, rfl⟩ := hst
  have hbehind := consult_stubBehind hlast s.tree onlyExisting name 0 s.entries s.sources
  have hplaced' := placed_consult hplaced s.tree onlyExisting name 0 s.entries
  obtain ⟨last', hlast', hentries⟩ := hbehind.entries
  refine ⟨hbehind.stubsAmong hgenuine, hsound, hleads.strategies ▸ hauthoritative, ?_⟩
  refine StubAdded.count ⟨hplaced', hasStub, last', hits, misses, hlast', ?_⟩ _ _
  rw [← hentries, ← hbehind.sources]

theorem relates_classNamed (name : String) :
    Relates Beside (fun a b => StubsAmong a.toList b.toList) (classNamed name) (classNamed name) :=
  fun s t hst => ⟨(relates_find false name s t hst).1.1, (relates_find false name s t hst).2⟩

theorem relates_hasClass (name : String) :
    Relates Beside Eq (hasClass name) (hasClass name) :=
  (relates_find true name).bind fun _ _ h => relates_pure (congrArg Option.isSome (h.2 rfl))

/-! ### Resolution -/

theorem relates_record (slot : Slot) (fullName : String) :
    Relates StubAdded Eq
      (modify fun s => { s with known := s.known.record slot fullName } : Query PUnit)
      (modify fun s => { s with known := s.known.record slot fullName }) := by
  rintro s t ⟨hplaced, hasStub, last, hits, misses, hlast, rfl⟩
  exact ⟨rfl, hplaced, hasStub, last, hits, misses, hlast, rfl⟩

theorem relates_resolve {around : Surroundings Query}
    (h : ∀ name, Relates Beside Eq (around.isKnown name) (around.isKnown name)) (r : TypeRef) :
    Relates Beside Eq (resolve around r) (resolve around r) := by
  unfold resolve
  split
  · exact relates_pure rfl
  · exact relates_pure rfl
  · refine relates_get.bind fun s t hst => ?_
    rw [hst.added.known, hst.added.sources]
    split
    · exact relates_pure rfl
    · split
      · exact relates_pure rfl
      · refine (relates_resolveName _ h _ _).bindEq fun meaning => ?_
        cases meaning with
        | some fullName =>
          exact (relates_beside (relates_record _ fullName) (keeps_record _ fullName)).bindEq
            fun _ => relates_pure rfl
        | none => exact relates_pure rfl

theorem relates_resolveRef (r : TypeRef) :
    Relates Beside Eq (resolveRef r) (resolveRef r) := by
  refine relates_get.bind fun s t hst => ?_
  rw [hst.added.library]
  exact relates_resolve relates_hasClass r

theorem relates_isDeclared (name : String) :
    Relates Beside Eq (onlySources.isKnown name) (onlySources.isKnown name) :=
  fun _ _ hst => ⟨congrArg (fun sources => sources.contains name) hst.added.sources.symm, hst⟩

theorem relates_resolveAmongUnits (r : TypeRef) :
    Relates Beside Eq (resolve onlySources r) (resolve onlySources r) :=
  relates_resolve relates_isDeclared r

/-! ### Direct supertypes -/

theorem relates_superclassName (c : Class) :
    Relates Beside Eq (superclassName c) (superclassName c) := by
  unfold superclassName
  split
  · exact (relates_resolveRef _).bindEq fun _ => relates_pure rfl
  · exact relates_pure rfl

theorem relates_superclassOf (c : Class) :
    Relates Beside (fun a b => StubsAmong a.toList b.toList) (superclassOf c) (superclassOf c) := by
  refine (relates_superclassName c).bindEq fun name => ?_
  cases name with
  | some name => exact relates_classNamed name
  | none => exact relates_pure .nil

theorem relates_findAll (rs : List TypeRef) :
    Relates Beside StubsAmong (findAll rs) (findAll rs) := by
  induction rs with
  | nil => exact relates_pure .nil
  | cons r rs ih =>
    exact (relates_resolveRef r).bindEq fun name => (relates_classNamed name).bind fun _ _ h =>
      ih.bind fun _ _ h' => relates_pure (h.append h')

theorem relates_interfacesOf (c : Class) :
    Relates Beside StubsAmong (interfacesOf c) (interfacesOf c) := relates_findAll _

theorem relates_directSupertypes (c : Class) :
    Relates Beside StubsAmong (directSupertypes c) (directSupertypes c) :=
  (relates_superclassOf c).bind fun _ _ h => (relates_interfacesOf c).bind fun _ _ h' =>
    relates_pure (h.append h')

/-! ### Checks -/

theorem relates_unresolvedAmong (path : FilePath) (owner : String) (site : TypeSite) (line : Nat)
    (rs : List TypeRef) :
    Relates Beside Eq (unresolvedAmong path owner site line rs)
      (unresolvedAmong path owner site line rs) := by
  induction rs with
  | nil => exact relates_pure rfl
  | cons r rs ih =>
    refine (relates_resolveRef r).bindEq fun _ => relates_get.bind fun s t hst => ?_
    rw [hst.added.known]
    exact ih.bindEq fun _ => relates_pure rfl

theorem relates_unresolved : Relates Beside Eq unresolved unresolved := by
  refine relates_get.bind fun s t hst => ?_
  rw [hst.added.sources]
  refine (Relates.mapM (fun u => .mapM (fun c => ?_) _) _).bindEq fun _ => relates_pure rfl
  refine (Relates.mapM (fun r => ?_) _).bindEq fun _ => relates_pure rfl
  exact relates_unresolvedAmong _ _ _ _ _

end Session

end JavaModel
