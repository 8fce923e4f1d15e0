import JavaModel.Proofs.Session.Dialogue

/-! What holds of a session whatever has been said to it. It is sound, every unit of it was read
from some text, and it knows no meaning but of names that stand in its units. So a session is the
same as itself under other ids, if these differ for ids only that it has not given out yet. -/

namespace JavaModel

namespace Session

variable {s t : Session}

/-- Units were read from texts, and meanings are known of names in units. -/
structure Regular (s : Session) : Prop where
  sound : s.Sound
  read : ∀ u ∈ s.sources.units, u.IsRead
  known : ∀ slot fullName, s.known.find? slot = some fullName →
    slot.source.number < s.sources.nextId

theorem regular_start (options : SessionOptions) (tree : FileTree) (parts : List ChainPart) :
    (start options tree parts).Regular :=
  ⟨sound_start options tree parts, by simp [start, SourceSet.empty], by simp [start]⟩

/-! ### Questions -/

theorem known_count (s : Session) (tally : Tally) : (s.count tally).known = s.known := by
  cases tally <;> rfl

theorem entries_count (s : Session) (tally : Tally) : (s.count tally).entries = s.entries := by
  cases tally <;> rfl

theorem Regular.find (h : s.Regular) (onlyExisting : Bool) (name : String) :
    (find onlyExisting name s).2.Regular := by
  obtain ⟨hsound, hleads⟩ := keeps_find onlyExisting name s h.sound
  have hsources : (Session.find onlyExisting name s).2.sources =
      (consult s.tree onlyExisting name 0 s.entries s.sources).sources := sources_count _ _
  have hknown : (Session.find onlyExisting name s).2.known = s.known := known_count _ _
  refine ⟨hsound, ?_, fun slot fullName hslot => ?_⟩
  · rw [hsources]
    exact units_consult SourceUnit.isRead_ofText h.read s.tree onlyExisting name 0 s.entries
  · rw [hknown] at hslot
    have := h.known slot fullName hslot
    have := hleads.sources.nextId
    omega

theorem Regular.record (h : s.Regular) {slot : Slot}
    (hunit : (s.sources.unit? slot.source).isSome) (fullName : String) :
    Regular { s with known := s.known.record slot fullName } := by
  refine ⟨⟨h.sound.sources, h.sound.entries⟩, h.read, fun other name hother => ?_⟩
  change (s.known.record slot fullName).find? other = some name at hother
  rw [Table.find?_record, Option.or_eq_some_iff] at hother
  obtain hother | ⟨_, hother⟩ := hother
  · exact h.known other name hother
  · obtain ⟨rfl, _⟩ := Option.ite_none_right_eq_some.mp hother
    obtain ⟨u, hu⟩ := Option.isSome_iff_exists.mp hunit
    have hid : u.id = slot.source := of_decide_eq_true (List.find?_some hu :)
    exact hid ▸ h.sound.sources.below u (List.mem_of_find?_eq_some hu)

theorem Regular.ask (h : s.Regular) (q : Question) : (ask q s).2.Regular :=
  ask_keeps Regular.find (fun hs => hs.record) h q

/-! ### Additions -/

/-- Units are added that were read, no meaning is recorded, and the chain is not asked. -/
structure Adds (s t : Session) : Prop where
  known : t.known = s.known
  entries : t.entries = s.entries
  read : ∀ u ∈ t.sources.units, u ∈ s.sources.units ∨ u.IsRead

theorem Adds.refl (s : Session) : s.Adds s := ⟨rfl, rfl, fun _ hu => .inl hu⟩

theorem Adds.trans {r : Session} (h : r.Adds s) (h' : s.Adds t) : r.Adds t :=
  ⟨h'.known.trans h.known, h'.entries.trans h.entries,
    fun u hu => (h'.read u hu).elim (h.read u) .inr⟩

theorem adds_reserve (s : Session) (n : Nat) :
    s.Adds { s with sources := { s.sources with nextId := n } } :=
  ⟨rfl, rfl, fun _ hu => .inl hu⟩

theorem adds_insert {u : SourceUnit} (hu : u.IsRead) (s : Session) : s.Adds (insert u s).2 := by
  refine ⟨rfl, rfl, fun v hv => ?_⟩
  rcases List.mem_append.mp hv with hv | hv
  · exact .inl hv
  · exact .inr (List.mem_singleton.mp hv ▸ hu)

theorem adds_addRead {read : UnitId → Except SourceError SourceUnit}
    (h : ∀ id u, read id = .ok u → u.IsRead) (s : Session) :
    s.Adds ((reserveId >>= fun id => insertRead (read id)) s).2 := by
  have hreserved : s.Adds (reserveId s).2 := adds_reserve s _
  rw [bind_apply]
  cases hread : read (reserveId s).1 with
  | error e => exact hreserved
  | ok u => exact hreserved.trans (adds_insert (h _ u hread) _)

theorem adds_addText (path : FilePath) (text : String) (s : Session) :
    s.Adds (addText path text s).2 := adds_addRead (fun _ _ => SourceUnit.isRead_ofText) s

theorem addFile_unreadable {path : FilePath} {fault : ReadFault}
    (h : s.tree.read path = .error fault) :
    addFile path s = (.error (.unreadable path fault), s) := by
  rw [addFile, bind_apply, get_apply, h]
  rfl

theorem addFile_readable {path : FilePath} {text : String} (h : s.tree.read path = .ok text) :
    addFile path s = addText path text s := by
  rw [addFile, bind_apply, get_apply, h]

theorem adds_addSource (x : Source) (s : Session) : s.Adds (addSource x s).2 := by
  cases x with
  | text path text => exact adds_addText path text s
  | reader path given => exact adds_addRead (fun _ _ => SourceUnit.isRead_ofReader) s
  | file path =>
    rw [addSource]
    cases hread : s.tree.read path with
    | error fault =>
      rw [addFile_unreadable hread]
      exact .refl s
    | ok text =>
      rw [addFile_readable hread]
      exact adds_addText path text s

theorem isRead_readUnits (tree : FileTree) (idOf : Nat → UnitId) (n : Nat) (ps : List FilePath) :
    ∀ u ∈ unitsRead (readUnits tree idOf n ps), u.IsRead := by
  induction ps generalizing n with
  | nil => simp [readUnits, unitsRead]
  | cons p ps ih =>
    unfold readUnits
    cases tree.read p with
    | error fault => exact ih n
    | ok text =>
      dsimp only
      cases hu : SourceUnit.ofText (idOf n) p text with
      | error e => exact ih (n + 1)
      | ok u => exact List.forall_mem_cons.mpr ⟨SourceUnit.isRead_ofText hu, ih (n + 1)⟩

theorem adds_insertAll {read : List (FilePath × Except SourceError SourceUnit)}
    (h : ∀ u ∈ unitsRead read, u.IsRead) (s : Session) : s.Adds (insertAll read s).2 := by
  induction read generalizing s with
  | nil => exact .refl s
  | cons first read ih =>
    obtain ⟨p, result⟩ := first
    cases result with
    | ok u =>
      obtain ⟨hu, hrest⟩ := List.forall_mem_cons.mp h
      rw [state_insertAll_ok]
      exact (adds_insert hu s).trans (ih hrest _)
    | error e =>
      rw [state_insertAll_error]
      split
      · exact ih h s
      · exact .refl s

theorem adds_loadTree (order : Nat → Nat) (dir : FilePath) (s : Session) :
    s.Adds (loadTree order dir s).2 := by
  obtain hsame | hfiles := state_loadTree order dir s
  · rw [hsame]
    exact .refl s
  · rw [hfiles]
    have hread := isRead_readUnits s.tree (fun n => ⟨s.sources.nextId + order n⟩) 0
      (s.filesBelow dir)
    exact (adds_reserve s _).trans (adds_insertAll hread _)

/-- A turn is a question, or only adds. -/
theorem asks_or_adds (turn : Turn) (s : Session) :
    (∃ q, turn = .ask q) ∨ s.Adds (respond turn s).2 := by
  cases turn with
  | ask q => exact .inl ⟨q, rfl⟩
  | add x => exact .inr (adds_addSource x s)
  | addTree numbering dir =>
    refine .inr ?_
    change s.Adds ((if s.Numbers dir numbering then _ else _ : Query Reply) s).2
    split
    · exact adds_loadTree numbering.order dir s
    · exact adds_loadTree id dir s

theorem Regular.adds (h : s.Regular) (hkeeps : t.Sound ∧ s.Leads t) (hadds : s.Adds t) :
    t.Regular := by
  obtain ⟨hsound, hleads⟩ := hkeeps
  refine ⟨hsound, fun u hu => (hadds.read u hu).elim (h.read u) id, fun slot fullName hslot => ?_⟩
  rw [hadds.known] at hslot
  have := h.known slot fullName hslot
  have := hleads.sources.nextId
  omega

theorem keeps_addSource (x : Source) : Query.Keeps (addSource x) := by
  cases x with
  | text path text => exact keeps_addText path text
  | reader path given => exact keeps_addReader path given
  | file path => exact keeps_addFile path

theorem Sound.loadTree (h : s.Sound) (numbering : Numbering) {dir : FilePath}
    (hnumbers : s.Numbers dir numbering) :
    (loadTree numbering.order dir s).2.Sound ∧ s.Leads (loadTree numbering.order dir s).2 := by
  obtain hsame | hfiles := state_loadTree numbering.order dir s
  · rw [hsame]
    exact ⟨h, .refl s⟩
  · rw [hfiles]
    exact sound_addFiles h numbering _ hnumbers

theorem Regular.addSource (h : s.Regular) (x : Source) : (addSource x s).2.Regular :=
  h.adds (keeps_addSource x s h.sound) (adds_addSource x s)

theorem Regular.loadTree (h : s.Regular) (numbering : Numbering) {dir : FilePath}
    (hnumbers : s.Numbers dir numbering) : (loadTree numbering.order dir s).2.Regular :=
  h.adds (h.sound.loadTree numbering hnumbers) (adds_loadTree numbering.order dir s)

/-! ### Dialogues -/

/-- A question keeps a session sound and only adds to what it knows. -/
theorem Sound.ask (h : s.Sound) (q : Question) :
    (ask q s).2.Sound ∧ s.Leads (ask q s).2 := by
  refine ask_keeps (P := fun t => t.Sound ∧ s.Leads t) (fun {t} ht onlyExisting name => ?_)
    (fun {t slot} ht _ fullName => ?_) ⟨h, .refl s⟩ q
  · obtain ⟨hsound, hleads⟩ := keeps_find onlyExisting name t ht.1
    exact ⟨hsound, ht.2.trans hleads⟩
  · obtain ⟨hsound, hleads⟩ := keeps_record slot fullName t ht.1
    exact ⟨hsound, ht.2.trans hleads⟩

/-- So does any turn. -/
theorem Sound.respond (h : s.Sound) (turn : Turn) :
    (respond turn s).2.Sound ∧ s.Leads (respond turn s).2 := by
  cases turn with
  | ask q => exact h.ask q
  | add x => exact keeps_addSource x s h
  | addTree numbering dir =>
    change ((if s.Numbers dir numbering then _ else _ : Query Reply) s).2.Sound ∧
      s.Leads ((if s.Numbers dir numbering then _ else _ : Query Reply) s).2
    split
    · exact h.loadTree numbering ‹_›
    · exact h.loadTree (.inOrder (readableCount s.tree (s.filesBelow dir))) rfl

theorem Sound.converse (h : s.Sound) (ts : List Turn) :
    (converse ts s).2.Sound ∧ s.Leads (converse ts s).2 := by
  refine converse_keeps (P := fun t => t.Sound ∧ s.Leads t) (fun {t} ht turn => ?_)
    ⟨h, .refl s⟩ ts
  obtain ⟨hsound, hleads⟩ := ht.1.respond turn
  exact ⟨hsound, ht.2.trans hleads⟩

theorem Regular.respond (h : s.Regular) (turn : Turn) : (respond turn s).2.Regular := by
  cases turn with
  | ask q => exact h.ask q
  | add x => exact h.addSource x
  | addTree numbering dir =>
    change ((if s.Numbers dir numbering then _ else _ : Query Reply) s).2.Regular
    split
    · exact h.loadTree numbering ‹_›
    · exact h.loadTree (.inOrder (readableCount s.tree (s.filesBelow dir))) rfl

theorem Regular.converse (h : s.Regular) (ts : List Turn) : (converse ts s).2.Regular :=
  converse_keeps Regular.respond h ts

/-- A session behind some dialogue. -/
def Reachable (s : Session) : Prop :=
  ∃ options tree parts, ∃ before : List Turn, s = (converse before (start options tree parts)).2

theorem Reachable.regular (h : s.Reachable) : s.Regular := by
  obtain ⟨options, tree, parts, before, rfl⟩ := h
  exact (regular_start options tree parts).converse before

theorem Reachable.converse (h : s.Reachable) (ts : List Turn) :
    (converse ts s).2.Reachable := by
  obtain ⟨options, tree, parts, before, rfl⟩ := h
  refine ⟨options, tree, parts, before ++ ts, ?_⟩
  rw [Session.converse, Session.converse, Session.converse, List.mapM_append]
  rfl

theorem Reachable.respond (h : s.Reachable) (turn : Turn) : (respond turn s).2.Reachable :=
  h.converse [turn]

/-! ### Ids not given out yet -/

/-- The session with another id to give out next. -/
def withNext (s : Session) (n : Nat) : Session :=
  { s with sources := { s.sources with nextId := n } }

/-- Ids below a bound stay what they are. -/
def Fixes (ρ : Renaming) (bound : Nat) : Prop := ∀ id : UnitId, id.number < bound → ρ id = id

variable {ρ : Renaming}

/-- An id that is not below the bound does not come below it. -/
theorem Fixes.le {bound : Nat} (h : Fixes ρ bound) {id : UnitId} (hid : bound ≤ id.number) :
    bound ≤ (ρ id).number := by
  by_contra hlt
  have hsame : ρ (ρ id) = ρ id := h (ρ id) (by omega)
  rw [ρ.injective hsame] at hlt
  exact hlt hid

theorem Regular.rename_unit (h : s.Regular) (hfixes : Fixes ρ s.sources.nextId) {u : SourceUnit}
    (hu : u ∈ s.sources.units) : u.rename ρ = u :=
  (h.read u hu).rename_eq ρ (hfixes u.id (h.sound.sources.below u hu))

theorem Regular.rename_found (h : s.Regular) (hfixes : Fixes ρ s.sources.nextId)
    {e : ChainEntry} (he : e ∈ s.entries) {name : String} {c : Class}
    (hc : e.found.find? name = some c) : c.rename ρ = c := by
  have hdeclared (hc : s.sources.class? name = some c) : c.rename ρ = c := by
    obtain ⟨id, u, _, hu, hc⟩ := SourceSet.class?_eq_some_iff.mp hc
    have hunit := h.rename_unit hfixes (List.mem_of_find?_eq_some hu)
    obtain ⟨hid, hc⟩ := Option.ite_none_right_eq_some.mp hc
    have hrenamed := SourceUnit.classAt?_rename ρ u id.index
    rw [hunit, hc] at hrenamed
    exact (Option.some.inj hrenamed).symm
  have hfinds := (h.sound.entries e he).found name c hc
  unfold Strategy.Finds at hfinds
  split at hfinds
  · exact hdeclared hfinds
  · exact hdeclared hfinds
  · obtain ⟨shape, _, rfl⟩ := Option.map_eq_some_iff.mp hfinds
    exact shape.toClass_rename ρ
  · rw [hfinds.2]
    exact Class.stub_rename ρ _

theorem Regular.unit?_rename (h : s.Regular) (hfixes : Fixes ρ s.sources.nextId) (id : UnitId) :
    s.sources.unit? (ρ id) = (s.sources.unit? id).map (SourceUnit.rename ρ) := by
  by_cases hid : id.number < s.sources.nextId
  · rw [hfixes id hid]
    cases hu : s.sources.unit? id with
    | none => rfl
    | some u => exact congrArg some (h.rename_unit hfixes (List.mem_of_find?_eq_some hu)).symm
  · -- Neither id has been given out.
    have hnone {id : UnitId} (hid : s.sources.nextId ≤ id.number) : s.sources.unit? id = none := by
      refine List.find?_eq_none.mpr fun u hu heq => ?_
      have := h.sound.sources.below u hu
      rw [of_decide_eq_true heq] at this
      omega
    rw [hnone (hfixes.le (Nat.le_of_not_lt hid)), hnone (Nat.le_of_not_lt hid)]
    rfl

theorem Regular.classId?_rename (h : s.Regular) (hfixes : Fixes ρ s.sources.nextId)
    (name : String) :
    s.sources.classId? name = (s.sources.classId? name).map (ClassId.rename ρ) := by
  cases hid : s.sources.classId? name with
  | none => rfl
  | some id =>
    obtain ⟨c, hc⟩ := Option.isSome_iff_exists.mp (h.sound.sources.known name id hid)
    obtain ⟨id', u, hid', hu, _⟩ := SourceSet.class?_eq_some_iff.mp hc
    obtain rfl : id = id' := Option.some.inj (hid.symm.trans hid')
    have hsource : u.id = id.source := of_decide_eq_true (List.find?_some hu :)
    have hlt := h.sound.sources.below u (List.mem_of_find?_eq_some hu)
    rw [hsource] at hlt
    rw [Option.map_some, ClassId.rename, hfixes id.source hlt]

theorem Regular.known_rename (h : s.Regular) (hfixes : Fixes ρ s.sources.nextId) (slot : Slot) :
    s.known.find? (slot.rename ρ) = s.known.find? slot := by
  by_cases hid : slot.source.number < s.sources.nextId
  · rw [Slot.rename, hfixes slot.source hid]
  · have hnone {slot : Slot} (hid : s.sources.nextId ≤ slot.source.number) :
        s.known.find? slot = none := by
      refine Option.eq_none_iff_forall_not_mem.mpr fun fullName hslot => ?_
      have := h.known slot fullName hslot
      omega
    rw [hnone (hfixes.le (Nat.le_of_not_lt hid)), hnone (Nat.le_of_not_lt hid)]

/-- A session is the same under other ids if these differ only for ids not given out yet, and pair
what it gives out next. -/
theorem Regular.alike_withNext (h : s.Regular) (hfixes : Fixes ρ s.sources.nextId) {m m' : Nat}
    (hnext : ∀ n, ρ ⟨m + n⟩ = ⟨m' + n⟩) : (s.withNext m).Alike ρ True (s.withNext m') := by
  have hunits : s.sources.units.map (SourceUnit.rename ρ) = s.sources.units :=
    (List.map_congr_left fun u hu => h.rename_unit hfixes hu).trans (List.map_id _)
  have hsources : (s.withNext m).sources.Alike ρ True (s.withNext m').sources :=
    ⟨.of_eq hunits.symm, fun _ => hunits.symm, h.unit?_rename hfixes, h.classId?_rename hfixes,
      hnext⟩
  have hentries : List.Forall₂ (ChainEntry.Alike ρ) s.entries s.entries := by
    refine List.forall₂_same.mpr fun e he => ⟨rfl, fun name => ?_, rfl, rfl⟩
    cases hc : e.found.find? name with
    | none => rfl
    | some c => exact congrArg some (h.rename_found hfixes he hc).symm
  exact ⟨rfl, rfl, rfl, hsources, hentries, h.known_rename hfixes, rfl, rfl⟩

end Session

end JavaModel
