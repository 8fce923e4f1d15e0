import JavaModel.Diagnostic
import JavaModel.Session

/-!
Sources added to a session by its host, and the references in them that mean nothing.
-/

namespace JavaModel

/-- A unit that was added, and those of its classes that were known before. -/
structure Registered where
  unit : SourceUnit
  duplicates : List String
deriving Repr, Inhabited

/-- What was loaded from a directory. -/
structure LoadReport where
  /-- The number of source files there. -/
  files : Nat
  units : List SourceUnit
  diagnostics : List Diagnostic
deriving Repr, Inhabited

/-- A reference that means nothing. -/
structure UnresolvedReference where
  path : FilePath
  /-- The full name of the class that the reference stands in. -/
  owner : String
  site : TypeSite
  /-- The name as written. -/
  name : String
  line : Nat
deriving DecidableEq, Repr, Inhabited

namespace Session

/-- Hands out an id for a unit to come. -/
def reserveId : Query UnitId := modifyGet fun s =>
  let (id, sources) := s.sources.reserveId
  (id, { s with sources })

/-- Adds a unit. -/
def insert (u : SourceUnit) : Query Registered := modifyGet fun s =>
  let (sources, duplicates) := s.sources.insert u
  (⟨u, duplicates⟩, { s with sources })

/-- Adds a unit if it could be read. -/
def insertRead : Except SourceError SourceUnit → Query (Except SourceError Registered)
  | .ok u => do pure (.ok (← insert u))
  | .error e => pure (.error e)

/-- Adds the unit of a text. -/
def addText (path : FilePath) (text : String) : Query (Except SourceError Registered) := do
  let id ← reserveId
  insertRead (SourceUnit.ofText id path text)

/-- Adds the unit of the text that a reader gives. -/
def addReader (path : FilePath) (given : Except ReadFault ByteArray) :
    Query (Except SourceError Registered) := do
  let id ← reserveId
  insertRead (SourceUnit.ofReader id path given)

/-- Adds the unit of a text in bytes. -/
def addBytes (path : FilePath) (bytes : ByteArray) : Query (Except SourceError Registered) :=
  addReader path (.ok bytes)

/-- Adds the unit of a file. A file that cannot be read takes no id. -/
def addFile (path : FilePath) : Query (Except SourceError Registered) := do
  match (← get).tree.read path with
  | .error fault => pure (.error (.unreadable path fault))
  | .ok text => addText path text

/-! ### Directories -/

/-- The units of files, each under the id that `idOf` gives to the text with its number among those
that could be read. -/
def readUnits (tree : FileTree) (idOf : Nat → UnitId) :
    Nat → List FilePath → List (FilePath × Except SourceError SourceUnit)
  | _, [] => []
  | n, p :: ps =>
    match tree.read p with
    | .error fault => (p, .error (.unreadable p fault)) :: readUnits tree idOf n ps
    | .ok text => (p, SourceUnit.ofText (idOf n) p text) :: readUnits tree idOf (n + 1) ps

/-- The number of files that can be read. -/
def readableCount (tree : FileTree) (ps : List FilePath) : Nat :=
  ps.countP fun p => (tree.read p).toBool

/-- Adds units in order and collects what there is to report. At a unit that could not be read it
goes on or stops, as the options say. -/
def insertAll : List (FilePath × Except SourceError SourceUnit) →
    Query (Except SourceError (List SourceUnit × List Diagnostic))
  | [] => pure (.ok ([], []))
  | (p, .ok u) :: rest => do
    let added ← insert u
    match ← insertAll rest with
    | .error e => pure (.error e)
    | .ok (units, ds) =>
      pure (.ok (u :: units, added.duplicates.map (Diagnostic.duplicateClass p) ++ ds))
  | (p, .error e) :: rest => do
    if (← get).options.continueOnError then
      match ← insertAll rest with
      | .error e => pure (.error e)
      | .ok (units, ds) => pure (.ok (units, Diagnostic.ofError p e :: ds))
    else pure (.error e)

/-- Adds the units of files, all of which are read before the first is added. `order` says in which
order the files come to their ids. -/
def addFiles (order : Nat → Nat) (ps : List FilePath) :
    Query (Except SourceError (List SourceUnit × List Diagnostic)) := do
  let s ← get
  let first := s.sources.nextId
  let units := readUnits s.tree (fun n => ⟨first + order n⟩) 0 ps
  let used := readableCount s.tree ps
  set { s with sources := { s.sources with nextId := first + used } }
  insertAll units

/-- The source files that a walk met. -/
def sourceFiles (extension : String) (met : List (Except (FilePath × ReadFault) FilePath)) :
    List FilePath :=
  met.filterMap fun
    | .ok p => if p.extension? = some extension then some p else none
    | .error _ => none

/-- The paths at which a walk went no further, with what is to be told of them. -/
def walkErrors (met : List (Except (FilePath × ReadFault) FilePath)) :
    List (FilePath × SourceError) :=
  met.filterMap fun
    | .ok _ => none
    | .error (p, fault) => some (p, .unreadable p (.walking p fault))

/-- Adds the units of all source files below a path, in the order of their paths, whatever the order
in which they come to their ids. What the walk could not open is reported first, or keeps every file
from being read, as the options say. -/
def loadTree (order : Nat → Nat) (dir : FilePath) : Query (Except SourceError LoadReport) := do
  let s ← get
  let met := s.tree.walk dir
  let errors := walkErrors met
  match errors, s.options.continueOnError with
  | (_, e) :: _, false => pure (.error e)
  | _, _ =>
    let files := sourceFiles s.options.extension met
    match ← addFiles order files with
    | .error e => pure (.error e)
    | .ok (units, diagnostics) =>
      let reported := errors.map fun (p, e) => Diagnostic.ofError p e
      pure (.ok ⟨files.length, units, reported ++ diagnostics⟩)

/-- Adds the units of all source files below a path, which come to their ids in order. -/
def addTree (dir : FilePath) : Query (Except SourceError LoadReport) := loadTree id dir

/-! ### Checks -/

/-- Resolves references and reports those that still mean nothing. -/
def unresolvedAmong (path : FilePath) (owner : String) (site : TypeSite) (line : Nat) :
    List TypeRef → Query (List UnresolvedReference)
  | [] => pure []
  | r :: rs => do
    let _ ← resolveRef r
    let isResolved := r.isResolved (← get).known
    let rest ← unresolvedAmong path owner site line rs
    pure (if isResolved then rest else ⟨path, owner, site, r.name, line⟩ :: rest)

/-- Resolves the references of a class, arguments included, and reports those that mean nothing. -/
def unresolvedIn (path : FilePath) (c : Class) : Query (List UnresolvedReference) := do
  let found ← c.typeRefs.mapM fun r =>
    unresolvedAmong path c.fullName r.site r.line r.ref.spread
  pure found.flatten

/-- Resolves every reference of every unit and reports those that mean nothing. -/
def unresolved : Query (List UnresolvedReference) := do
  let found ← (← get).sources.units.mapM fun u => u.classes.mapM (unresolvedIn u.path)
  pure found.flatten.flatten

/-- The references that mean nothing, as warnings. -/
def check : Query (List Diagnostic) := do
  pure ((← unresolved).map fun r =>
    Diagnostic.unresolvedType r.path r.line r.name r.site.render)

end Session

end JavaModel
