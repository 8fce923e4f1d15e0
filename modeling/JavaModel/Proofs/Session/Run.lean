import JavaModel.Proofs.Library.Memory
import JavaModel.Session.Sources

/-! Runs of a session: additions of sources, questions for classes and resolutions, any number of
them in any order. Every run keeps a session sound, which means that its source set is valid and
that the entries of its chain are faithful, and only adds to what the session knows. -/

namespace JavaModel

namespace Session

variable {s t : Session}

/-- The source set is valid and the chain remembers nothing that its strategies would not say. -/
structure Sound (s : Session) : Prop where
  sources : s.sources.Valid
  entries : ∀ e ∈ s.entries, e.Faithful s.tree s.sources

/-- How a session may change: units and meanings are added, and the rest stays. -/
structure Leads (s t : Session) : Prop where
  options : t.options = s.options
  tree : t.tree = s.tree
  implicitPackages : t.implicitPackages = s.implicitPackages
  strategies : t.entries.map (·.strategy) = s.entries.map (·.strategy)
  sources : s.sources.Grows t.sources
  known : ∀ slot name, s.known.find? slot = some name → t.known.find? slot = some name

theorem Leads.refl (s : Session) : s.Leads s :=
  ⟨rfl, rfl, rfl, rfl, .refl _, fun _ _ h => h⟩

theorem Leads.trans {r : Session} (h : r.Leads s) (h' : s.Leads t) : r.Leads t :=
  ⟨h'.options.trans h.options, h'.tree.trans h.tree, h'.implicitPackages.trans h.implicitPackages,
    h'.strategies.trans h.strategies, h.sources.trans h'.sources,
    fun slot name hname => h'.known slot name (h.known slot name hname)⟩

/-- A session stays sound when only its source set grows. -/
theorem Sound.grow (h : s.Sound) {sources : SourceSet} (hgrows : s.sources.Grows sources)
    (hvalid : sources.Valid) :
    Sound { s with sources } ∧ s.Leads { s with sources } :=
  ⟨⟨hvalid, fun e he => (h.entries e he).mono hgrows⟩,
    ⟨rfl, rfl, rfl, rfl, hgrows, fun _ _ h => h⟩⟩

theorem sound_start (options : SessionOptions) (tree : FileTree) (parts : List ChainPart) :
    (start options tree parts).Sound := by
  refine ⟨SourceSet.valid_empty, fun e he => ?_⟩
  obtain ⟨strategy, _, rfl⟩ := List.mem_map.mp he
  exact ChainEntry.faithful_fresh strategy

end Session

open Session

variable {α β : Type}

/-- The question leaves a sound session sound, and only adds to what it knows. -/
def Query.Keeps (q : Query α) : Prop := ∀ s : Session, s.Sound → (q s).2.Sound ∧ s.Leads (q s).2

theorem Query.keeps_pure (a : α) : Query.Keeps (pure a) := fun s hs => ⟨hs, .refl s⟩

theorem Query.keeps_get : Query.Keeps (get : Query Session) := fun s hs => ⟨hs, .refl s⟩

theorem Query.Keeps.bind {q : Query α} {f : α → Query β} (hq : q.Keeps) (hf : ∀ a, (f a).Keeps) :
    Query.Keeps (q >>= f) := by
  intro s hs
  obtain ⟨hsound, hleads⟩ := hq s hs
  obtain ⟨hsound', hleads'⟩ := hf (q s).1 (q s).2 hsound
  exact ⟨hsound', hleads.trans hleads'⟩

theorem Query.Keeps.ite {c : Prop} [Decidable c] {q r : Query α} (hq : q.Keeps) (hr : r.Keeps) :
    Query.Keeps (if c then q else r) := by
  split
  · exact hq
  · exact hr

namespace Session

open Query

/-! ### Questions -/

theorem sound_count {s : Session} (h : s.Sound) (tally : Tally) :
    (s.count tally).Sound ∧ s.Leads (s.count tally) := by
  cases tally <;> exact ⟨⟨h.sources, h.entries⟩, ⟨rfl, rfl, rfl, rfl, .refl _, fun _ _ h => h⟩⟩

theorem keeps_find (onlyExisting : Bool) (fullName : String) :
    Keeps (find onlyExisting fullName) := by
  intro s hs
  have h := consult_consults hs.entries hs.sources onlyExisting fullName 0
  let r := consult s.tree onlyExisting fullName 0 s.entries s.sources
  have hasked : Sound { s with entries := r.entries, sources := r.sources } :=
    ⟨h.valid, h.faithful⟩
  have hleads : s.Leads { s with entries := r.entries, sources := r.sources } :=
    ⟨rfl, rfl, rfl, h.strategies, h.grows, fun _ _ h => h⟩
  obtain ⟨hsound, hcount⟩ := sound_count hasked r.tally
  exact ⟨hsound, hleads.trans hcount⟩

theorem keeps_classNamed (fullName : String) : Keeps (classNamed fullName) := keeps_find _ _

theorem keeps_hasClass (fullName : String) : Keeps (hasClass fullName) :=
  (keeps_find _ _).bind fun _ => keeps_pure _

theorem keeps_firstKnown {isKnown : String → Query Bool} (h : ∀ name, (isKnown name).Keeps)
    (names : List String) : Keeps (firstKnown isKnown names) := by
  induction names with
  | nil => exact keeps_pure _
  | cons name names ih => exact (h name).bind fun _ => .ite (keeps_pure _) ih

theorem keeps_resolveSimple (u : SourceUnit) {around : Surroundings Query}
    (h : ∀ name, (around.isKnown name).Keeps) (context : Option ClassIndex) (name : String) :
    Keeps (u.resolveSimple around context name) := by
  unfold SourceUnit.resolveSimple
  split
  · exact keeps_pure _
  · exact keeps_firstKnown h _

theorem keeps_resolveName (u : SourceUnit) {around : Surroundings Query}
    (h : ∀ name, (around.isKnown name).Keeps) (context : Option ClassIndex) (name : String) :
    Keeps (u.resolveName around context name) := by
  unfold SourceUnit.resolveName
  split
  · exact keeps_resolveSimple u h context name
  · refine (keeps_resolveSimple u h context _).bind fun outer => ?_
    cases outer with
    | some outer => exact keeps_pure _
    | none => exact (h name).bind fun _ => .ite (keeps_pure _) (.ite (keeps_pure _) (keeps_pure _))

theorem keeps_record (slot : Slot) (fullName : String) :
    Keeps (modify fun s => { s with known := s.known.record slot fullName }) := fun _ hs =>
  ⟨⟨hs.sources, hs.entries⟩, ⟨rfl, rfl, rfl, rfl, .refl _, fun _ _ h =>
    Table.find?_record_of_some h slot fullName⟩⟩

theorem keeps_resolve (around : Surroundings Query) (h : ∀ name, (around.isKnown name).Keeps)
    (r : TypeRef) : Keeps (resolve around r) := by
  unfold resolve
  split
  · exact keeps_pure _
  · exact keeps_pure _
  · refine keeps_get.bind fun s => ?_
    split
    · exact keeps_pure _
    · split
      · exact keeps_pure _
      · refine (keeps_resolveName _ h _ _).bind fun meaning => ?_
        cases meaning with
        | some fullName => exact (keeps_record _ fullName).bind fun _ => keeps_pure _
        | none => exact keeps_pure _

theorem keeps_resolveRef (r : TypeRef) : Keeps (resolveRef r) :=
  keeps_get.bind fun s => keeps_resolve s.library keeps_hasClass r

theorem keeps_resolveAmongUnits (r : TypeRef) : Keeps (resolve onlySources r) :=
  keeps_resolve onlySources (fun _ => keeps_get.bind fun _ => keeps_pure _) r

/-! ### Additions -/

theorem Sound.insert {s : Session} (h : s.Sound) {u : SourceUnit} (hu : s.sources.Admits u) :
    (Session.insert u s).2.Sound ∧ s.Leads (Session.insert u s).2 :=
  h.grow (SourceSet.grows_insert _ u) (h.sources.insert hu)

/-- Reading a unit under the next id and adding it, if it could be read. -/
theorem keeps_addRead {read : UnitId → Except SourceError SourceUnit}
    (h : ∀ id u, read id = .ok u → u.id = id ∧ u.Placed) :
    Keeps (reserveId >>= fun id => insertRead (read id)) := by
  intro s hs
  obtain ⟨hsound, hleads⟩ :=
    hs.grow (SourceSet.grows_reserveId _) (hs.sources.reserve (Nat.le_succ _))
  change (insertRead (read s.sources.reserveId.1) _).2.Sound ∧
    s.Leads (insertRead (read s.sources.reserveId.1) _).2
  cases hread : read s.sources.reserveId.1 with
  | error e => exact ⟨hsound, hleads⟩
  | ok u =>
    obtain ⟨hid, hplaced⟩ := h _ u hread
    obtain ⟨hsound', hleads'⟩ := hsound.insert (hs.sources.admits_next hid hplaced)
    exact ⟨hsound', hleads.trans hleads'⟩

theorem keeps_addText (path : FilePath) (text : String) : Keeps (addText path text) :=
  keeps_addRead fun _ _ h => SourceUnit.ofText_places h

theorem keeps_addReader (path : FilePath) (given : Except ReadFault ByteArray) :
    Keeps (addReader path given) :=
  keeps_addRead fun _ _ h => SourceUnit.ofReader_places h

theorem keeps_addBytes (path : FilePath) (bytes : ByteArray) : Keeps (addBytes path bytes) :=
  keeps_addReader path (.ok bytes)

theorem keeps_addFile (path : FilePath) : Keeps (addFile path) := by
  refine keeps_get.bind fun s => ?_
  split
  · exact keeps_pure _
  · exact keeps_addText path _

/-- The units that could be read. -/
def unitsRead (read : List (FilePath × Except SourceError SourceUnit)) : List SourceUnit :=
  read.filterMap fun f => f.2.toOption

/-- Units may be added one after the other. -/
def AdmitsAll (sources : SourceSet) (us : List SourceUnit) : Prop :=
  (∀ u ∈ us, sources.Admits u) ∧ us.Pairwise fun u v => u.id ≠ v.id

theorem AdmitsAll.tail {sources : SourceSet} {u : SourceUnit} {us : List SourceUnit}
    (h : AdmitsAll sources (u :: us)) : AdmitsAll (sources.insert u).1 us := by
  obtain ⟨hadmits, hids⟩ := h
  obtain ⟨hu, hids⟩ := List.pairwise_cons.mp hids
  refine ⟨fun v hv => ?_, hids⟩
  have hadmitted := hadmits v (List.mem_cons_of_mem _ hv)
  refine ⟨hadmitted.placed, hadmitted.below, fun w hw => ?_⟩
  rcases List.mem_append.mp hw with hw | hw
  · exact hadmitted.fresh w hw
  · exact List.mem_singleton.mp hw ▸ hu v hv

theorem get_apply (s : Session) : (get : Query Session) s = (s, s) := rfl

theorem bind_apply {α β : Type} (q : Query α) (f : α → Query β) (s : Session) :
    (q >>= f) s = f (q s).1 (q s).2 := rfl

/-- What follows a question without changing the session leaves it as the question did. -/
theorem state_bind {α β : Type} {q : Query α} {f : α → Query β} (hf : ∀ a s, (f a s).2 = s)
    (s : Session) : ((q >>= f) s).2 = (q s).2 := hf _ _

theorem state_insertAll_ok (p : FilePath) (u : SourceUnit)
    (read : List (FilePath × Except SourceError SourceUnit)) (s : Session) :
    (insertAll ((p, .ok u) :: read) s).2 = (insertAll read (Session.insert u s).2).2 := by
  rw [insertAll]
  rw [bind_apply]
  refine state_bind (fun result s => ?_) (Session.insert u s).2
  cases result <;> rfl

theorem state_insertAll_error (p : FilePath) (e : SourceError)
    (read : List (FilePath × Except SourceError SourceUnit)) (s : Session) :
    (insertAll ((p, .error e) :: read) s).2 =
      if s.options.continueOnError then (insertAll read s).2 else s := by
  rw [insertAll]
  change ((if s.options.continueOnError then _ else _ : Query _) s).2 = _
  split
  · refine state_bind (fun result s => ?_) s
    cases result <;> rfl
  · rfl

theorem sound_insertAll {read : List (FilePath × Except SourceError SourceUnit)} {s : Session}
    (hs : s.Sound) (hread : AdmitsAll s.sources (unitsRead read)) :
    (insertAll read s).2.Sound ∧ s.Leads (insertAll read s).2 := by
  induction read generalizing s with
  | nil => exact ⟨hs, .refl s⟩
  | cons f read ih =>
    obtain ⟨p, result⟩ := f
    cases result with
    | ok u =>
      obtain ⟨hsound, hleads⟩ := hs.insert (hread.1 u (List.mem_cons_self ..))
      obtain ⟨hsound', hleads'⟩ := ih hsound hread.tail
      rw [state_insertAll_ok]
      exact ⟨hsound', hleads.trans hleads'⟩
    | error e =>
      rw [state_insertAll_error]
      split
      · exact ih hs hread
      · exact ⟨hs, .refl s⟩

/-- How ids are shared out among files that are read together: in order, or in the order in which
several readers happen to ask for them. -/
structure Numbering where
  order : Nat → Nat
  /-- The number of ids. -/
  count : Nat
  below : ∀ n < count, order n < count
  injective : ∀ m < count, ∀ n < count, order m = order n → m = n

/-- The first file has the first id, and so on. -/
def Numbering.inOrder (count : Nat) : Numbering :=
  ⟨id, count, fun _ h => h, fun _ _ _ _ h => h⟩

theorem unitsRead_error (p : FilePath) (e : SourceError)
    (read : List (FilePath × Except SourceError SourceUnit)) :
    unitsRead ((p, .error e) :: read) = unitsRead read := rfl

theorem unitsRead_ok (p : FilePath) (u : SourceUnit)
    (read : List (FilePath × Except SourceError SourceUnit)) :
    unitsRead ((p, .ok u) :: read) = u :: unitsRead read := rfl

/-- The units of files carry the ids of their numbers, in the order of the files. -/
theorem unitsRead_readUnits (tree : FileTree) (idOf : Nat → UnitId) (n : Nat)
    (ps : List FilePath) :
    (∀ u ∈ unitsRead (readUnits tree idOf n ps), u.Placed ∧
      ∃ k, n ≤ k ∧ k < n + readableCount tree ps ∧ u.id = idOf k) ∧
    (unitsRead (readUnits tree idOf n ps)).Pairwise fun u v =>
      ∃ j k, n ≤ j ∧ j < k ∧ k < n + readableCount tree ps ∧ u.id = idOf j ∧ v.id = idOf k := by
  induction ps generalizing n with
  | nil => simp [readUnits, unitsRead]
  | cons p ps ih =>
    have hcount : readableCount tree (p :: ps)
        = readableCount tree ps + if (tree.read p).toBool then 1 else 0 := List.countP_cons
    unfold readUnits
    cases hread : tree.read p with
    | error fault =>
      rw [hread] at hcount
      rw [hcount, unitsRead_error]
      exact ih n
    | ok text =>
      rw [hread] at hcount
      have hcount' : n + readableCount tree (p :: ps) = n + 1 + readableCount tree ps := by
        rw [hcount]
        simp only [Except.toBool, if_true]
        omega
      obtain ⟨hunits, hids⟩ := ih (n + 1)
      rw [hcount']
      dsimp only
      cases hu : SourceUnit.ofText (idOf n) p text with
      | error e =>
        rw [unitsRead_error]
        refine ⟨fun u hu => ?_, hids.imp fun ⟨j, k, hj, hrest⟩ => ⟨j, k, by omega, hrest⟩⟩
        obtain ⟨hplaced, k, hk, hrest⟩ := hunits u hu
        exact ⟨hplaced, k, by omega, hrest⟩
      | ok u =>
        obtain ⟨hid, hplaced⟩ := SourceUnit.ofText_places hu
        rw [unitsRead_ok]
        refine ⟨List.forall_mem_cons.mpr ⟨⟨hplaced, n, by omega, by omega, hid⟩, fun v hv => ?_⟩,
          List.pairwise_cons.mpr ⟨fun v hv => ?_,
            hids.imp fun ⟨j, k, hj, hrest⟩ => ⟨j, k, by omega, hrest⟩⟩⟩
        · obtain ⟨hplaced, k, hk, hrest⟩ := hunits v hv
          exact ⟨hplaced, k, by omega, hrest⟩
        · obtain ⟨_, k, hk, hlt, hvid⟩ := hunits v hv
          exact ⟨n, k, by omega, by omega, hlt, hid, hvid⟩

theorem sound_addFiles {s : Session} (hs : s.Sound) (numbering : Numbering) (ps : List FilePath)
    (hcount : numbering.count = readableCount s.tree ps) :
    (addFiles numbering.order ps s).2.Sound ∧ s.Leads (addFiles numbering.order ps s).2 := by
  let first := s.sources.nextId
  let reserved : SourceSet := { s.sources with nextId := first + readableCount s.tree ps }
  have hgrows : s.sources.Grows reserved :=
    ⟨List.prefix_refl _, fun _ _ h => h, Nat.le_add_right _ _⟩
  obtain ⟨hsound, hleads⟩ := hs.grow hgrows (hs.sources.reserve (Nat.le_add_right _ _))
  obtain ⟨hunits, hids⟩ :=
    unitsRead_readUnits s.tree (fun n => ⟨first + numbering.order n⟩) 0 ps
  have hadmits : AdmitsAll reserved
      (unitsRead (readUnits s.tree (fun n => ⟨first + numbering.order n⟩) 0 ps)) := by
    refine ⟨fun u hu => ?_, hids.imp ?_⟩
    · obtain ⟨hplaced, k, _, hk, hid⟩ := hunits u hu
      have hlt := numbering.below k (by omega)
      refine ⟨hplaced, ?_, fun v hv heq => ?_⟩
      · rw [hid]
        change first + numbering.order k < first + readableCount s.tree ps
        omega
      · -- Ids that the session has given out before are smaller.
        have hbelow := hs.sources.below v hv
        rw [heq, hid] at hbelow
        change first + numbering.order k < first at hbelow
        omega
    · rintro u v ⟨j, k, _, hjk, hk, hu, hv⟩ heq
      rw [hu, hv] at heq
      injection heq with heq
      have := numbering.injective j (by omega) k (by omega) (by omega)
      omega
  obtain ⟨hsound', hleads'⟩ := sound_insertAll hsound hadmits
  exact ⟨hsound', hleads.trans hleads'⟩

theorem state_loadTree (order : Nat → Nat) (dir : FilePath) (s : Session) :
    (loadTree order dir s).2 = s ∨
      (loadTree order dir s).2 =
        (addFiles order (sourceFiles s.options.extension (s.tree.walk dir)) s).2 := by
  rw [loadTree, bind_apply, get_apply]
  dsimp only
  cases walkErrors (s.tree.walk dir) with
  | nil => exact .inr (state_bind (fun result _ => by cases result <;> rfl) s)
  | cons error errors =>
    cases s.options.continueOnError with
    | false => exact .inl rfl
    | true => exact .inr (state_bind (fun result _ => by cases result <;> rfl) s)

theorem keeps_addTree (dir : FilePath) : Keeps (addTree dir) := by
  intro s hs
  unfold addTree
  obtain h | h := state_loadTree id dir s
  · rw [h]
    exact ⟨hs, .refl s⟩
  · rw [h]
    exact sound_addFiles hs (Numbering.inOrder (readableCount s.tree _)) _ rfl

/-! ### Runs -/

/-- What a host may do with a session. -/
inductive Operation where
  | addText (path : FilePath) (text : String)
  | addBytes (path : FilePath) (bytes : ByteArray)
  | addFile (path : FilePath)
  | addTree (dir : FilePath)
  /-- Adds files that are read together, if the numbering has an id for each. -/
  | addFiles (numbering : Numbering) (files : List FilePath)
  | classNamed (fullName : String)
  | hasClass (fullName : String)
  | resolve (r : TypeRef)
  /-- Resolves a reference without the library. -/
  | resolveAmongUnits (r : TypeRef)

/-- The session behind an operation. -/
def perform (s : Session) : Operation → Session
  | .addText path text => (addText path text s).2
  | .addBytes path bytes => (addBytes path bytes s).2
  | .addFile path => (addFile path s).2
  | .addTree dir => (addTree dir s).2
  | .addFiles numbering files =>
    if numbering.count = readableCount s.tree files then (addFiles numbering.order files s).2 else s
  | .classNamed fullName => (classNamed fullName s).2
  | .hasClass fullName => (hasClass fullName s).2
  | .resolve r => (resolveRef r s).2
  | .resolveAmongUnits r => (resolve onlySources r s).2

/-- The session behind a run of operations. -/
def after (s : Session) (ops : List Operation) : Session := ops.foldl perform s

/-- One operation keeps a session sound and only adds to what it knows. -/
theorem Sound.perform {s : Session} (h : s.Sound) (op : Operation) :
    (s.perform op).Sound ∧ s.Leads (s.perform op) := by
  cases op with
  | addText path text => exact keeps_addText path text s h
  | addBytes path bytes => exact keeps_addBytes path bytes s h
  | addFile path => exact keeps_addFile path s h
  | addTree dir => exact keeps_addTree dir s h
  | addFiles numbering files =>
    unfold Session.perform
    dsimp only
    split
    · exact sound_addFiles h numbering files ‹_›
    · exact ⟨h, .refl s⟩
  | classNamed fullName => exact keeps_classNamed fullName s h
  | hasClass fullName => exact keeps_hasClass fullName s h
  | resolve r => exact keeps_resolveRef r s h
  | resolveAmongUnits r => exact keeps_resolveAmongUnits r s h

/-- So does any run. -/
theorem Sound.after {s : Session} (h : s.Sound) (ops : List Operation) :
    (s.after ops).Sound ∧ s.Leads (s.after ops) := by
  induction ops generalizing s with
  | nil => exact ⟨h, .refl s⟩
  | cons op ops ih =>
    obtain ⟨hsound, hleads⟩ := h.perform op
    obtain ⟨hsound', hleads'⟩ := ih hsound
    exact ⟨hsound', hleads.trans hleads'⟩

end Session

end JavaModel
