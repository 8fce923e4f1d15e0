import JavaModel.Proofs.Library.Renaming
import JavaModel.Proofs.Session.Relation
import JavaModel.Proofs.Session.Run
import JavaModel.Proofs.Session.Walking
import JavaModel.Session.Sources

/-! Sessions that are the same but for the ids of their units. They find the same classes, and
whatever is added to both, they report the same and stay the same, but for ids. -/

namespace JavaModel

variable {ρ : Renaming} {ordered : Prop}

/-- The second session is the first under other ids, with its units in the same order if `ordered`.
-/
structure Session.Alike (ρ : Renaming) (ordered : Prop) (s t : Session) : Prop where
  options : t.options = s.options
  tree : t.tree = s.tree
  implicitPackages : t.implicitPackages = s.implicitPackages
  sources : s.sources.Alike ρ ordered t.sources
  entries : List.Forall₂ (ChainEntry.Alike ρ) s.entries t.entries
  known : ∀ slot, t.known.find? (slot.rename ρ) = s.known.find? slot
  hits : t.hits = s.hits
  misses : t.misses = s.misses

def Registered.rename (ρ : Renaming) (r : Registered) : Registered :=
  { r with unit := r.unit.rename ρ }

def LoadReport.rename (ρ : Renaming) (r : LoadReport) : LoadReport :=
  { r with units := r.units.map (SourceUnit.rename ρ) }

namespace Session

open Query

variable {s t : Session}

theorem Alike.refl (s : Session) : s.Alike (.refl UnitId) True s :=
  ⟨rfl, rfl, rfl, .refl _, List.forall₂_same.mpr fun e _ => .refl e, fun _ => rfl, rfl, rfl⟩

theorem Alike.library (h : s.Alike ρ ordered t) : t.library = s.library := by
  unfold Session.library
  rw [h.implicitPackages]

theorem Alike.isResolved (h : s.Alike ρ ordered t) (r : TypeRef) :
    (r.rename ρ).isResolved t.known = r.isResolved s.known := by
  unfold TypeRef.isResolved TypeRef.resolved?
  rw [TypeRef.origin_rename, TypeRef.name_rename]
  cases r.origin with
  | written slot context => exact congrArg Option.isSome (h.known slot)
  | qualified => rfl
  | typeVariable => rfl

theorem Alike.count (h : s.Alike ρ ordered t) (tally : Tally) :
    (s.count tally).Alike ρ ordered (t.count tally) := by
  obtain ⟨hoptions, htree, hpackages, hsources, hentries, hknown, hhits, hmisses⟩ := h
  cases tally with
  | hit =>
    exact ⟨hoptions, htree, hpackages, hsources, hentries, hknown, congrArg (· + 1) hhits, hmisses⟩
  | miss =>
    exact ⟨hoptions, htree, hpackages, hsources, hentries, hknown, hhits, congrArg (· + 1) hmisses⟩
  | uncounted => exact ⟨hoptions, htree, hpackages, hsources, hentries, hknown, hhits, hmisses⟩

theorem alike_find (onlyExisting : Bool) (name : String) :
    Relates (Alike ρ ordered) (Option.map (Answer.rename ρ) · = ·) (find onlyExisting name)
      (find onlyExisting name) := by
  intro s t hst
  let r := consult s.tree onlyExisting name 0 s.entries s.sources
  let r' := consult t.tree onlyExisting name 0 t.entries t.sources
  have hconsulted : r.Alike ρ ordered r' := by
    unfold r'
    rw [hst.tree]
    exact consult_alike hst.entries hst.sources onlyExisting name 0
  have hasked : Alike ρ ordered { s with entries := r.entries, sources := r.sources }
      { t with entries := r'.entries, sources := r'.sources } :=
    ⟨hst.options, hst.tree, hst.implicitPackages, hconsulted.sources, hconsulted.entries,
      hst.known, hst.hits, hst.misses⟩
  refine ⟨hconsulted.answer.symm, ?_⟩
  change Alike ρ ordered (count _ r.tally) (count _ r'.tally)
  rw [hconsulted.tally]
  exact hasked.count r.tally

theorem Alike.record (h : s.Alike ρ ordered t) (slot : Slot) (fullName : String) :
    Alike ρ ordered { s with known := s.known.record slot fullName }
      { t with known := t.known.record (slot.rename ρ) fullName } := by
  refine ⟨h.options, h.tree, h.implicitPackages, h.sources, h.entries, fun other => ?_, h.hits,
    h.misses⟩
  change (t.known.record (slot.rename ρ) fullName).find? (other.rename ρ) =
    (s.known.record slot fullName).find? other
  simp only [Table.find?_record, h.known, Slot.rename_inj]

/-! ### Additions -/

theorem alike_reserveId :
    Relates (Alike ρ ordered) (ρ · = ·) reserveId reserveId := by
  intro s t hst
  obtain ⟨hid, hreserved⟩ := hst.sources.reserveId
  exact ⟨hid.symm, hst.options, hst.tree, hst.implicitPackages, hreserved, hst.entries, hst.known,
    hst.hits, hst.misses⟩

theorem alike_insert (u : SourceUnit) :
    Relates (Alike ρ ordered) (Registered.rename ρ · = ·) (insert u) (insert (u.rename ρ)) := by
  intro s t hst
  obtain ⟨hinserted, hduplicates⟩ := hst.sources.insert u
  exact ⟨congrArg (Registered.mk _) hduplicates.symm, hst.options, hst.tree, hst.implicitPackages,
    hinserted, hst.entries, hst.known, hst.hits, hst.misses⟩

theorem alike_insertRead (read : Except SourceError SourceUnit) :
    Relates (Alike ρ ordered) (Except.map (Registered.rename ρ) · = ·) (insertRead read)
      (insertRead (read.map (SourceUnit.rename ρ))) := by
  cases read with
  | error e => exact relates_pure rfl
  | ok u => exact (alike_insert u).bindMap fun _ => relates_pure rfl

/-- A unit read under the next id and added, if it could be read. -/
theorem alike_addRead {read : UnitId → Except SourceError SourceUnit}
    (h : ∀ id, read (ρ id) = (read id).map (SourceUnit.rename ρ)) :
    Relates (Alike ρ ordered) (Except.map (Registered.rename ρ) · = ·)
      (reserveId >>= fun id => insertRead (read id))
      (reserveId >>= fun id => insertRead (read id)) := by
  refine alike_reserveId.bind fun id id' hid => ?_
  rw [← hid, h]
  exact alike_insertRead (read id)

theorem alike_addText (path : FilePath) (text : String) :
    Relates (Alike ρ ordered) (Except.map (Registered.rename ρ) · = ·) (addText path text)
      (addText path text) := alike_addRead fun id => SourceUnit.ofText_rename ρ id path text

theorem alike_addReader (path : FilePath) (given : Except ReadFault ByteArray) :
    Relates (Alike ρ ordered) (Except.map (Registered.rename ρ) · = ·) (addReader path given)
      (addReader path given) := alike_addRead fun id => SourceUnit.ofReader_rename ρ id path given

theorem alike_addFile (path : FilePath) :
    Relates (Alike ρ ordered) (Except.map (Registered.rename ρ) · = ·) (addFile path)
      (addFile path) := by
  refine relates_get.bind fun s t hst => ?_
  rw [hst.tree]
  split
  · exact relates_pure rfl
  · exact alike_addText path _

/-- Units read from files, under other ids. -/
def renameRead (ρ : Renaming) (read : List (FilePath × Except SourceError SourceUnit)) :
    List (FilePath × Except SourceError SourceUnit) :=
  read.map fun f => (f.1, f.2.map (SourceUnit.rename ρ))

/-- Loaded units and what there is to report, the units under other ids. -/
def renameLoaded (ρ : Renaming) (loaded : List SourceUnit × List Diagnostic) :
    List SourceUnit × List Diagnostic := (loaded.1.map (SourceUnit.rename ρ), loaded.2)

theorem readUnits_rename (tree : FileTree) {idOf idOf' : Nat → UnitId} (n : Nat)
    (ps : List FilePath) (h : ∀ k, n ≤ k → k < n + readableCount tree ps → idOf' k = ρ (idOf k)) :
    readUnits tree idOf' n ps = renameRead ρ (readUnits tree idOf n ps) := by
  induction ps generalizing n with
  | nil => rfl
  | cons p ps ih =>
    have hcount : readableCount tree (p :: ps)
        = readableCount tree ps + if (tree.read p).toBool then 1 else 0 := List.countP_cons
    unfold readUnits
    cases hread : tree.read p with
    | error fault =>
      rw [hread] at hcount
      refine congrArg ((p, .error (.unreadable p fault)) :: ·) (ih n fun k hk hlt => ?_)
      exact h k hk (by rwa [hcount])
    | ok text =>
      rw [hread] at hcount
      simp only [Except.toBool, if_true] at hcount
      have hid : idOf' n = ρ (idOf n) := h n (Nat.le_refl n) (by omega)
      dsimp only
      rw [hid, SourceUnit.ofText_rename]
      refine congrArg ((p, _) :: ·) (ih (n + 1) fun k hk hlt => ?_)
      exact h k (by omega) (by omega)

theorem alike_insertAll (read : List (FilePath × Except SourceError SourceUnit)) :
    Relates (Alike ρ ordered) (Except.map (renameLoaded ρ) · = ·) (insertAll read)
      (insertAll (renameRead ρ read)) := by
  induction read with
  | nil => exact relates_pure rfl
  | cons first read ih =>
    obtain ⟨p, result⟩ := first
    cases result with
    | ok u =>
      refine (alike_insert u).bindMap fun added => ih.bindMap fun result => ?_
      cases result <;> exact relates_pure rfl
    | error e =>
      refine relates_get.bind fun s t hst => ?_
      rw [hst.options]
      refine .ite (ih.bindMap fun result => ?_) (relates_pure rfl)
      cases result <;> exact relates_pure rfl

theorem alike_addFiles (order : Nat → Nat) (ps : List FilePath) :
    Relates (Alike ρ ordered) (Except.map (renameLoaded ρ) · = ·) (addFiles order ps)
      (addFiles order ps) := by
  intro s t hst
  have hread : readUnits t.tree (fun n => ⟨t.sources.nextId + order n⟩) 0 ps =
      renameRead ρ (readUnits s.tree (fun n => ⟨s.sources.nextId + order n⟩) 0 ps) := by
    rw [hst.tree]
    exact readUnits_rename s.tree 0 ps fun k _ _ => (hst.sources.nextId (order k)).symm
  change Except.map _ (insertAll _ _).1 = (insertAll (readUnits t.tree _ 0 ps) _).1 ∧
    Alike ρ ordered (insertAll _ _).2 (insertAll (readUnits t.tree _ 0 ps) _).2
  rw [hread]
  refine alike_insertAll _ _ _ ⟨hst.options, hst.tree, hst.implicitPackages, ?_, hst.entries,
    hst.known, hst.hits, hst.misses⟩
  rw [hst.tree]
  exact hst.sources.reserve _

theorem alike_loadTree (order : Nat → Nat) (dir : FilePath) :
    Relates (Alike ρ ordered) (Except.map (LoadReport.rename ρ) · = ·) (loadTree order dir)
      (loadTree order dir) := by
  refine relates_get.bind fun s t hst => ?_
  rw [hst.tree, hst.options]
  dsimp only
  split
  · exact relates_pure rfl
  · refine (alike_addFiles order _).bindMap fun result => ?_
    cases result <;> exact relates_pure rfl

end Session

end JavaModel
