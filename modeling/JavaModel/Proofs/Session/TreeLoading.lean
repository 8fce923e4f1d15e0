import JavaModel.Proofs.FileTree
import JavaModel.Proofs.Session.Regular

/-! Directories. The files below a path may be read together, and then come to their ids in any
order, or be added one by one. Either way the units are added in the order of the paths, so that the
report and the session that is left are the same but for ids. -/

namespace JavaModel

namespace Session

variable {s t : Session}

/-- The ids from `first` on, shared out as the numbering says. -/
def Numbering.renaming (numbering : Numbering) (first : Nat) : Renaming where
  toFun id :=
    if first ≤ id.number ∧ id.number < first + numbering.count then
      ⟨first + numbering.order (id.number - first)⟩
    else id
  inj' := by
    -- Ids of the numbering go to ids of the numbering, and all others stay.
    rintro ⟨i⟩ ⟨j⟩ h
    have hbelow := numbering.below
    have hinjective := numbering.injective (i - first)
    dsimp only at h
    split at h <;> split at h
    · injection h with h
      have := hinjective (by omega) (j - first) (by omega) (by omega)
      rw [UnitId.mk.injEq]
      omega
    · injection h with h
      have := hbelow (i - first) (by omega)
      omega
    · injection h with h
      have := hbelow (j - first) (by omega)
      omega
    · exact h

theorem Numbering.renaming_given (numbering : Numbering) (first : Nat) {n : Nat}
    (hn : n < numbering.count) :
    numbering.renaming first ⟨first + n⟩ = ⟨first + numbering.order n⟩ := by
  have hgiven : first ≤ first + n ∧ first + n < first + numbering.count := by omega
  change (if first ≤ first + n ∧ first + n < first + numbering.count then _ else _) = _
  rw [if_pos hgiven]
  change UnitId.mk (first + numbering.order (first + n - first)) = _
  rw [Nat.add_sub_cancel_left]

theorem Numbering.renaming_other (numbering : Numbering) (first : Nat) {id : UnitId}
    (hid : id.number < first ∨ first + numbering.count ≤ id.number) :
    numbering.renaming first id = id := by
  refine if_neg fun h => ?_
  omega

/-! ### Files -/

/-- The unit of a file, under an id. -/
def readUnit (tree : FileTree) (id : UnitId) (p : FilePath) : Except SourceError SourceUnit :=
  match tree.read p with
  | .error fault => .error (.unreadable p fault)
  | .ok text => SourceUnit.ofText id p text

/-- Why a file fails, if it does. -/
def fault? (tree : FileTree) (p : FilePath) : Option SourceError :=
  match tree.read p with
  | .error fault => some (.unreadable p fault)
  | .ok text => (parse text).error.map .malformed

theorem readUnit_eq_error_iff {tree : FileTree} {id : UnitId} {p : FilePath} {e : SourceError} :
    readUnit tree id p = .error e ↔ fault? tree p = some e := by
  unfold readUnit fault?
  cases tree.read p with
  | error fault => simp
  | ok text =>
    dsimp only
    unfold SourceUnit.ofText
    cases hparsed : (parse text).error <;> simp [hparsed]

theorem fault?_of_readUnit {tree : FileTree} {id : UnitId} {p : FilePath} {u : SourceUnit}
    (h : readUnit tree id p = .ok u) : fault? tree p = none := by
  refine Option.eq_none_iff_forall_ne_some.mpr fun e he => ?_
  rw [readUnit_eq_error_iff.mpr he] at h
  cases h

theorem readUnit_id {tree : FileTree} {id : UnitId} {p : FilePath} {u : SourceUnit}
    (h : readUnit tree id p = .ok u) : u.id = id := by
  unfold readUnit at h
  split at h
  · cases h
  · exact (SourceUnit.ofText_places h).1

theorem readUnits_cons (tree : FileTree) (idOf : Nat → UnitId) (n : Nat) (p : FilePath)
    (ps : List FilePath) :
    readUnits tree idOf n (p :: ps) =
      (p, readUnit tree (idOf n) p) :: readUnits tree idOf (n + readableCount tree [p]) ps := by
  rw [readUnits, readUnit, readableCount, List.countP_singleton]
  cases tree.read p <;> rfl

theorem addFile_apply (p : FilePath) (s : Session) :
    addFile p s = insertRead (readUnit s.tree ⟨s.sources.nextId⟩ p)
      (s.withNext (s.sources.nextId + readableCount s.tree [p])) := by
  rw [readUnit, readableCount, List.countP_singleton]
  cases hread : s.tree.read p with
  | error fault => exact addFile_unreadable hread
  | ok text => exact addFile_readable hread

/-! ### One by one -/

/-- What was loaded, with another file before it. -/
def prepend (p : FilePath) :
    Except SourceError Registered → List SourceUnit × List Diagnostic →
      List SourceUnit × List Diagnostic
  | .ok added, (units, ds) =>
    (added.unit :: units, added.duplicates.map (Diagnostic.duplicateClass p) ++ ds)
  | .error e, (units, ds) => (units, Diagnostic.ofError p e :: ds)

/-- Goes on behind a file, unless it failed and is to be the last then. -/
def goOnBehind (goOn : Bool) (p : FilePath) (added : Except SourceError Registered)
    (rest : Query (Except SourceError (List SourceUnit × List Diagnostic))) :
    Query (Except SourceError (List SourceUnit × List Diagnostic)) :=
  match added, goOn with
  | .error e, false => pure (.error e)
  | _, _ => do pure ((← rest).map (prepend p added))

/-- Adds files one by one, and goes on behind one that fails or stops there. -/
def addEach (goOn : Bool) :
    List FilePath → Query (Except SourceError (List SourceUnit × List Diagnostic))
  | [] => pure (.ok ([], []))
  | p :: ps => do goOnBehind goOn p (← addFile p) (addEach goOn ps)

/-- The report on files of which these were loaded. -/
def reportOn (files : List FilePath) (loaded : List SourceUnit × List Diagnostic) : LoadReport :=
  ⟨files.length, loaded.1, loaded.2⟩

/-- Adds the source files below a path one by one. -/
def addOneByOne (dir : FilePath) : Query (Except SourceError LoadReport) := do
  let s ← get
  let files := s.filesBelow dir
  pure ((← addEach s.options.continueOnError files).map (reportOn files))

theorem insertAll_cons (p : FilePath) (read : Except SourceError SourceUnit)
    (rest : List (FilePath × Except SourceError SourceUnit)) (s : Session) :
    insertAll ((p, read) :: rest) s =
      goOnBehind s.options.continueOnError p (insertRead read s).1 (insertAll rest)
        (insertRead read s).2 := by
  cases read with
  | ok u =>
    rw [insertAll, bind_apply, bind_apply]
    change _ = ((insertAll rest (insert u s).2).1.map (prepend p (.ok (insert u s).1)),
      (insertAll rest (insert u s).2).2)
    cases (insertAll rest (insert u s).2).1 <;> rfl
  | error e =>
    rw [insertAll, bind_apply, get_apply]
    dsimp only
    cases s.options.continueOnError with
    | false => rfl
    | true =>
      change (insertAll rest >>= _) s = ((insertAll rest s).1.map (prepend p (.error e)),
        (insertAll rest s).2)
      rw [bind_apply]
      cases (insertAll rest s).1 <;> rfl

/-- A unit is added whatever the id is that comes next. -/
theorem insertRead_withNext (read : Except SourceError SourceUnit) (s : Session) (n : Nat) :
    insertRead read (s.withNext n) = ((insertRead read s).1, (insertRead read s).2.withNext n) := by
  cases read <;> rfl

theorem goOnBehind_withNext {rest rest' : Query (Except SourceError (List SourceUnit × List Diagnostic))}
    {s : Session} {n : Nat} (h : rest' (s.withNext n) = ((rest s).1, (rest s).2.withNext n))
    (goOn : Bool) (p : FilePath) (added : Except SourceError Registered) :
    goOnBehind goOn p added rest' (s.withNext n) =
      ((goOnBehind goOn p added rest s).1, (goOnBehind goOn p added rest s).2.withNext n) := by
  have hgo : (do pure ((← rest').map (prepend p added)) : Query _) (s.withNext n) =
      ((rest s).1.map (prepend p added), (rest s).2.withNext n) := by
    rw [bind_apply, h]
    rfl
  cases added with
  | ok added => exact hgo
  | error e =>
    cases goOn with
    | true => exact hgo
    | false => rfl

/-- Files that are all read before the first is added leave the same as files that are added one by
one, but for the id that comes next. -/
theorem insertAll_readUnits (ps : List FilePath) (first n : Nat) (s : Session)
    (hnext : s.sources.nextId = first + n) (last : Nat) :
    insertAll (readUnits s.tree (fun k => ⟨first + k⟩) n ps) (s.withNext last) =
      ((addEach s.options.continueOnError ps s).1,
        (addEach s.options.continueOnError ps s).2.withNext last) := by
  -- Both have the same units at each file, since the ids of all files are known before the first
  -- is added; only the id that comes next differs on the way.
  induction ps generalizing n s with
  | nil => rfl
  | cons p ps ih =>
    let reserved := s.withNext (s.sources.nextId + readableCount s.tree [p])
    let read := readUnit s.tree ⟨s.sources.nextId⟩ p
    have hadded : addFile p s = insertRead read reserved := addFile_apply p s
    have hother : (insertRead read reserved).2.tree = s.tree ∧
        (insertRead read reserved).2.options = s.options ∧
        (insertRead read reserved).2.sources.nextId =
          first + (n + readableCount s.tree [p]) := by
      have hreserved : reserved.sources.nextId = first + (n + readableCount s.tree [p]) := by
        change s.sources.nextId + _ = _
        omega
      cases read <;> exact ⟨rfl, rfl, hreserved⟩
    obtain ⟨htree, hoptions, hnext'⟩ := hother
    have hrest := ih _ (insertRead read reserved).2 hnext'
    rw [htree, hoptions] at hrest
    have hfirst : insertRead read (s.withNext last) =
        ((insertRead read reserved).1, (insertRead read reserved).2.withNext last) :=
      insertRead_withNext read reserved last
    rw [addEach, bind_apply, hadded, readUnits_cons, insertAll_cons, ← hnext, hfirst]
    exact goOnBehind_withNext hrest _ _ _

/-! ### What is loaded -/

/-- The files that are loaded: all that do not fail, or those before the first that fails. -/
def loadable (tree : FileTree) (goOn : Bool) (ps : List FilePath) : List FilePath :=
  if goOn then ps.filter fun p => (fault? tree p).isNone
  else ps.takeWhile fun p => (fault? tree p).isNone

/-- The fault that ends a loading. -/
def lastFault? (tree : FileTree) (goOn : Bool) (ps : List FilePath) : Option SourceError :=
  if goOn then none else ps.findSome? (fault? tree)

/-- What is told of the files that fail. -/
def failures (tree : FileTree) (ps : List FilePath) : List Diagnostic :=
  ps.filterMap fun p => (fault? tree p).map (Diagnostic.ofError p)

/-- The unit was read from the file. -/
def IsUnitOf (tree : FileTree) (p : FilePath) (u : SourceUnit) : Prop :=
  readUnit tree u.id p = .ok u

def errorsAmong (ds : List Diagnostic) : List Diagnostic :=
  ds.filter fun d => d.severity = .error

theorem errorsAmong_duplicates (p : FilePath) (names : List String) (ds : List Diagnostic) :
    errorsAmong (names.map (Diagnostic.duplicateClass p) ++ ds) = errorsAmong ds := by
  have hnone : errorsAmong (names.map (Diagnostic.duplicateClass p)) = [] :=
    List.filter_eq_nil_iff.mpr (by simp [Diagnostic.duplicateClass])
  exact (List.filter_append ..).trans (congrArg (· ++ errorsAmong ds) hnone)

theorem errorsAmong_ofError (p : FilePath) (e : SourceError) (ds : List Diagnostic) :
    errorsAmong (Diagnostic.ofError p e :: ds) = Diagnostic.ofError p e :: errorsAmong ds :=
  List.filter_cons_of_pos (decide_eq_true rfl)

section

variable {tree : FileTree} {goOn : Bool} {p : FilePath} (ps : List FilePath)

theorem loadable_cons_none (h : fault? tree p = none) :
    loadable tree goOn (p :: ps) = p :: loadable tree goOn ps := by
  cases goOn <;> simp [loadable, h]

theorem loadable_cons_some {e : SourceError} (h : fault? tree p = some e) :
    loadable tree goOn (p :: ps) = if goOn then loadable tree goOn ps else [] := by
  cases goOn <;> simp [loadable, h]

theorem lastFault?_cons (goOn : Bool) :
    lastFault? tree goOn (p :: ps) =
      if goOn then none else (fault? tree p).or (lastFault? tree goOn ps) := by
  cases goOn with
  | true => rfl
  | false =>
    change (p :: ps).findSome? (fault? tree) = (fault? tree p).or (ps.findSome? (fault? tree))
    rw [List.findSome?_cons]
    cases fault? tree p <;> rfl

theorem failures_cons :
    failures tree (p :: ps) =
      ((fault? tree p).map (Diagnostic.ofError p)).toList ++ failures tree ps := by
  unfold failures
  cases h : fault? tree p <;> simp [h]

/-- Every file is loaded or told to have failed, unless the loading ends before. -/
theorem length_loadable (h : lastFault? tree goOn ps = none) :
    ps.length = (loadable tree goOn ps).length + (failures tree ps).length := by
  induction ps with
  | nil => cases goOn <;> rfl
  | cons p ps ih =>
    rw [lastFault?_cons] at h
    have hrest : lastFault? tree goOn ps = none := by
      cases goOn with
      | true => rfl
      | false => exact (Option.or_eq_none_iff.mp h).2
    have hlength := ih hrest
    rw [failures_cons]
    cases hfault : fault? tree p with
    | none =>
      rw [loadable_cons_none ps hfault]
      simp only [List.length_cons, Option.map_none, Option.toList_none, List.nil_append]
      omega
    | some e =>
      cases goOn with
      | true =>
        rw [loadable_cons_some ps hfault, if_pos rfl]
        simp only [List.length_cons, Option.map_some, Option.toList_some, List.singleton_append]
        omega
      | false =>
        rw [hfault] at h
        cases h

/-- What comes of loading files: their units, and the fault that ends the loading or what there is to
tell. -/
structure Loads (tree : FileTree) (goOn : Bool) (ps : List FilePath) (us : List SourceUnit)
    (result : Except SourceError (List SourceUnit × List Diagnostic)) : Prop where
  units : List.Forall₂ (IsUnitOf tree) (loadable tree goOn ps) us
  fails : ∀ e, lastFault? tree goOn ps = some e → result = .error e
  succeeds : lastFault? tree goOn ps = none →
    ∃ ds, result = .ok (us, ds) ∧ errorsAmong ds = failures tree ps

variable {ps} {us : List SourceUnit}
  {result : Except SourceError (List SourceUnit × List Diagnostic)}

theorem loads_nil : Loads tree goOn [] [] (.ok ([], [])) := by
  cases goOn <;> exact ⟨.nil, nofun, fun _ => ⟨[], rfl, rfl⟩⟩

theorem Loads.cons (h : Loads tree goOn ps us result) {u : SourceUnit} (hu : IsUnitOf tree p u)
    (duplicates : List String) :
    Loads tree goOn (p :: ps) (u :: us) (result.map (prepend p (.ok ⟨u, duplicates⟩))) := by
  have hfault := fault?_of_readUnit hu
  have hlast : lastFault? tree goOn (p :: ps) = lastFault? tree goOn ps := by
    rw [lastFault?_cons, hfault]
    cases goOn <;> rfl
  refine ⟨?_, fun e he => ?_, fun hnone => ?_⟩
  · rw [loadable_cons_none ps hfault]
    exact .cons hu h.units
  · rw [h.fails e (hlast ▸ he)]
    rfl
  · obtain ⟨ds, rfl, hds⟩ := h.succeeds (hlast ▸ hnone)
    refine ⟨_, rfl, ?_⟩
    rw [errorsAmong_duplicates, hds, failures_cons, hfault]
    rfl

theorem Loads.cons_failed (h : Loads tree true ps us result) {e : SourceError}
    (hfault : fault? tree p = some e) :
    Loads tree true (p :: ps) us (result.map (prepend p (.error e))) := by
  refine ⟨?_, nofun, fun _ => ?_⟩
  · rw [loadable_cons_some ps hfault]
    exact h.units
  · obtain ⟨ds, rfl, hds⟩ := h.succeeds rfl
    refine ⟨_, rfl, ?_⟩
    rw [errorsAmong_ofError, hds, failures_cons, hfault]
    rfl

theorem loads_failed (ps : List FilePath) {e : SourceError} (hfault : fault? tree p = some e) :
    Loads tree false (p :: ps) [] (.error e) := by
  have hlast : lastFault? tree false (p :: ps) = some e := by
    rw [lastFault?_cons, hfault]
    rfl
  refine ⟨?_, fun e' he' => ?_, fun hnone => ?_⟩
  · rw [loadable_cons_some ps hfault]
    exact .nil
  · rw [hlast] at he'
    cases he'
    rfl
  · rw [hlast] at hnone
    cases hnone

end

theorem insertAll_loads (tree : FileTree) (idOf : Nat → UnitId) (n : Nat) (ps : List FilePath)
    (s : Session) :
    let x := insertAll (readUnits tree idOf n ps) s
    ∃ us, Loads tree s.options.continueOnError ps us x.1 ∧
      x.2.sources.units = s.sources.units ++ us := by
  induction ps generalizing n s with
  | nil => exact ⟨[], loads_nil, (List.append_nil _).symm⟩
  | cons p ps ih =>
    dsimp only
    rw [readUnits_cons, insertAll_cons]
    generalize n + readableCount tree [p] = n'
    cases hread : readUnit tree (idOf n) p with
    | ok u =>
      have hunit : IsUnitOf tree p u := by
        rw [IsUnitOf, readUnit_id hread, hread]
      obtain ⟨us, hus, hunits⟩ := ih n' (insert u s).2
      exact ⟨u :: us, hus.cons hunit _, hunits.trans (List.append_assoc ..)⟩
    | error e =>
      have hfault := readUnit_eq_error_iff.mp hread
      obtain ⟨us, hus, hunits⟩ := ih n' s
      cases hgoOn : s.options.continueOnError with
      | true =>
        rw [hgoOn] at hus
        exact ⟨us, hus.cons_failed hfault, hunits⟩
      | false => exact ⟨[], loads_failed ps hfault, (List.append_nil _).symm⟩

/-! ### Directories -/

/-- The files below a path are read together, in the order of their ids. -/
def readBelow (order : Nat → Nat) (dir : FilePath) (s : Session) :
    List (FilePath × Except SourceError SourceUnit) :=
  readUnits s.tree (fun n => ⟨s.sources.nextId + order n⟩) 0 (s.filesBelow dir)

/-- The session that has given out the ids of the files below a path. -/
def reserveBelow (dir : FilePath) (s : Session) : Session :=
  s.withNext (s.sources.nextId + readableCount s.tree (s.filesBelow dir))

theorem loadTree_walked {dir : FilePath} (h : walkErrors (s.tree.walk dir) = [])
    (order : Nat → Nat) :
    let loaded := insertAll (readBelow order dir s) (reserveBelow dir s)
    loadTree order dir s = (loaded.1.map (reportOn (s.filesBelow dir)), loaded.2) := by
  intro loaded
  have hloaded : addFiles order (s.filesBelow dir) s = loaded := rfl
  rw [loadTree, bind_apply, get_apply]
  dsimp only
  rw [h]
  change (addFiles order (s.filesBelow dir) >>= _) s = _
  rw [bind_apply, hloaded]
  cases loaded.1 <;> rfl

/-- What comes of loading the source files below a path. -/
structure LoadsBelow (s : Session) (dir : FilePath) (us : List SourceUnit)
    (x : Except SourceError LoadReport × Session) : Prop where
  units : List.Forall₂ (IsUnitOf s.tree)
    (loadable s.tree s.options.continueOnError (s.filesBelow dir)) us
  registered : x.2.sources.units = s.sources.units ++ us
  fails : ∀ e, lastFault? s.tree s.options.continueOnError (s.filesBelow dir) = some e →
    x.1 = .error e
  succeeds : lastFault? s.tree s.options.continueOnError (s.filesBelow dir) = none →
    ∃ report, x.1 = .ok report ∧ report.units = us ∧
      errorsAmong report.diagnostics = failures s.tree (s.filesBelow dir) ∧
      report.files = us.length + (failures s.tree (s.filesBelow dir)).length

theorem Loads.below {dir : FilePath} {us : List SourceUnit}
    {result : Except SourceError (List SourceUnit × List Diagnostic)}
    (h : Loads s.tree s.options.continueOnError (s.filesBelow dir) us result)
    (hunits : t.sources.units = s.sources.units ++ us) :
    s.LoadsBelow dir us (result.map (reportOn (s.filesBelow dir)), t) := by
  refine ⟨h.units, hunits, fun e he => ?_, fun hnone => ?_⟩
  · rw [h.fails e he]
    rfl
  · obtain ⟨ds, rfl, hds⟩ := h.succeeds hnone
    have hlength := length_loadable _ hnone
    rw [h.units.length_eq] at hlength
    exact ⟨_, rfl, rfl, hds, hlength⟩

theorem loadTree_loads {dir : FilePath} (h : walkErrors (s.tree.walk dir) = [])
    (order : Nat → Nat) : ∃ us, s.LoadsBelow dir us (loadTree order dir s) := by
  rw [loadTree_walked h]
  obtain ⟨us, hus, hunits⟩ := insertAll_loads s.tree (fun n => ⟨s.sources.nextId + order n⟩) 0
    (s.filesBelow dir) (reserveBelow dir s)
  exact ⟨us, hus.below hunits⟩

/-- A directory is loaded as its files are when they are added one by one, but for the id that comes
next. -/
theorem addTree_walked {dir : FilePath} (h : walkErrors (s.tree.walk dir) = []) :
    ∃ n, addTree dir s = ((addOneByOne dir s).1, (addOneByOne dir s).2.withNext n) := by
  refine ⟨s.sources.nextId + readableCount s.tree (s.filesBelow dir), ?_⟩
  rw [addTree, loadTree_walked h]
  have heach := insertAll_readUnits (s.filesBelow dir) s.sources.nextId 0 s rfl
    (s.sources.nextId + readableCount s.tree (s.filesBelow dir))
  exact congrArg (fun x => (Except.map (reportOn (s.filesBelow dir)) x.1, x.2)) heach

/-- Which file comes to which id makes no difference but in the ids. -/
theorem addTree_alike (hs : s.Regular) {dir : FilePath} {numbering : Numbering}
    (h : walkErrors (s.tree.walk dir) = []) (hnumbers : s.Numbers dir numbering) :
    let ρ := numbering.renaming s.sources.nextId
    (loadTree numbering.order dir s).1 = (addTree dir s).1.map (LoadReport.rename ρ) ∧
      (addTree dir s).2.Alike ρ True (loadTree numbering.order dir s).2 := by
  -- The session itself is the same under the other ids, which differ only for files read now.
  intro ρ
  have hcount : numbering.count = readableCount s.tree (s.filesBelow dir) := hnumbers
  have hreserved : (reserveBelow dir s).Alike ρ True (reserveBelow dir s) := by
    refine hs.alike_withNext (fun id hid => numbering.renaming_other _ (.inl hid)) fun n => ?_
    refine numbering.renaming_other _ (.inr ?_)
    rw [hcount]
    exact Nat.le_add_right ..
  have hread : readBelow numbering.order dir s = renameRead ρ (readBelow id dir s) := by
    refine readUnits_rename s.tree 0 (s.filesBelow dir) fun k _ hk => ?_
    exact (numbering.renaming_given _ (by omega)).symm
  obtain ⟨hresult, hstate⟩ := alike_insertAll (readBelow id dir s) _ _ hreserved
  rw [addTree, loadTree_walked h, loadTree_walked h, hread]
  refine ⟨?_, hstate⟩
  rw [← hresult]
  cases (insertAll (readBelow id dir s) (reserveBelow dir s)).1 <;> rfl

/-- In any session, a directory that can be walked is loaded alike whether its files are read
together, come to their ids in order or are added one by one. -/
theorem loadings_alike (hs : s.Reachable) {dir : FilePath} {numbering : Numbering}
    (hwalked : walkErrors (s.tree.walk dir) = []) (hnumbers : s.Numbers dir numbering) :
    let oneByOne := addOneByOne dir s
    let inOrder := addTree dir s
    let together := loadTree numbering.order dir s
    let ρ := numbering.renaming s.sources.nextId
    (∃ n, inOrder = (oneByOne.1, oneByOne.2.withNext n)) ∧
      together.1 = inOrder.1.map (LoadReport.rename ρ) ∧ inOrder.2.Alike ρ True together.2 ∧
      ∀ x ∈ [oneByOne, inOrder, together], ∃ us, s.LoadsBelow dir us x := by
  intro oneByOne inOrder together ρ
  obtain ⟨n, hn⟩ := addTree_walked hwalked
  obtain ⟨hresult, hstate⟩ := addTree_alike hs.regular hwalked hnumbers
  obtain ⟨us, hus⟩ := loadTree_loads hwalked id
  refine ⟨⟨n, hn⟩, hresult, hstate, ?_⟩
  rintro x hx
  simp only [List.mem_cons, List.not_mem_nil, or_false] at hx
  obtain rfl | rfl | rfl := hx
  · change s.LoadsBelow dir us (addTree dir s) at hus
    rw [hn] at hus
    exact ⟨us, hus.units, hus.registered, hus.fails, hus.succeeds⟩
  · exact ⟨us, hus⟩
  · exact loadTree_loads hwalked numbering.order

/-- A file that declares a class, and one that ends too early. -/
def twoFiles : FileTree :=
  ((FileTree.empty ⟨"/r"⟩).write ⟨"A.java"⟩ "class A \x7b\x7d".toUTF8).write ⟨"B.java"⟩
    "class \x7b".toUTF8

theorem walk_twoFiles : twoFiles.walk ⟨"/r"⟩ = [.ok ⟨"/r/A.java"⟩, .ok ⟨"/r/B.java"⟩] := by
  have hroot : twoFiles.locate ⟨"/r"⟩ = .ok (.below []) := by
    rw [FileTree.locate_eq_follow] <;> decide +kernel
  have hcontents : twoFiles.contents [] = [[], ["A.java"], ["B.java"]] :=
    -- What stands there is in order as it is written.
    (List.mergeSort_of_pairwise (by decide +kernel)).trans (by decide +kernel)
  rw [FileTree.walk, hroot]
  dsimp only
  rw [hcontents]
  decide +kernel

theorem readable_twoFiles : readableCount twoFiles [⟨"/r/A.java"⟩, ⟨"/r/B.java"⟩] = 2 := by
  have hfirst : twoFiles.locate ⟨"/r/A.java"⟩ = .ok (.below ["A.java"]) := by
    rw [FileTree.locate_eq_follow] <;> decide +kernel
  have hsecond : twoFiles.locate ⟨"/r/B.java"⟩ = .ok (.below ["B.java"]) := by
    rw [FileTree.locate_eq_follow] <;> decide +kernel
  have hread : twoFiles.read ⟨"/r/A.java"⟩ = .ok "class A \x7b\x7d" ∧
      twoFiles.read ⟨"/r/B.java"⟩ = .ok "class \x7b" :=
    ⟨FileTree.read_below hfirst (by decide +kernel), FileTree.read_below hsecond (by decide +kernel)⟩
  rw [readableCount, List.countP_cons, List.countP_singleton, hread.1, hread.2]
  rfl

/-- The second file comes to the first id. -/
def secondFirst : Numbering := ⟨fun n => 1 - n, 2, by decide, by decide⟩

theorem loadings_alike_twoFiles :
    let s := start .standard twoFiles [.parsedSources]
    let dir : FilePath := ⟨"/r"⟩
    let oneByOne := addOneByOne dir s
    let inOrder := addTree dir s
    let together := loadTree secondFirst.order dir s
    let ρ := secondFirst.renaming s.sources.nextId
    (s.Reachable ∧ walkErrors (s.tree.walk dir) = [] ∧ s.Numbers dir secondFirst) ∧
      (∃ n, inOrder = (oneByOne.1, oneByOne.2.withNext n)) ∧
        together.1 = inOrder.1.map (LoadReport.rename ρ) ∧ inOrder.2.Alike ρ True together.2 ∧
        ∀ x ∈ [oneByOne, inOrder, together], ∃ us, s.LoadsBelow dir us x := by
  intro s dir oneByOne inOrder together ρ
  have hreachable : s.Reachable := ⟨.standard, twoFiles, [.parsedSources], [], rfl⟩
  have hwalked : walkErrors (s.tree.walk dir) = [] := by
    change walkErrors (twoFiles.walk ⟨"/r"⟩) = []
    rw [walk_twoFiles]
    rfl
  have hnumbers : s.Numbers dir secondFirst := by
    change 2 = readableCount twoFiles (sourceFiles "java" (twoFiles.walk ⟨"/r"⟩))
    rw [walk_twoFiles]
    exact readable_twoFiles.symm
  exact ⟨⟨hreachable, hwalked, hnumbers⟩, loadings_alike hreachable hwalked hnumbers⟩

end Session

end JavaModel
