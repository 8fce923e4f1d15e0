import JavaModel.Model.SourceUnit

/-!
The source units of a session, in the order they were added, and an index of their classes by full
name. Units are never replaced; of classes with one full name the first counts. Ids are counted
without a bound, which up to the last id of a counter of 32 bits makes no difference.
-/

namespace JavaModel

/-- Units and the index of their classes. -/
structure SourceSet where
  units : List SourceUnit
  index : Table String ClassId
  nextId : Nat
deriving Repr, Inhabited

namespace SourceSet

def empty : SourceSet := ⟨[], .empty, 0⟩

/-- Hands out an id for a unit to come. -/
def reserveId (s : SourceSet) : UnitId × SourceSet :=
  (⟨s.nextId⟩, { s with nextId := s.nextId + 1 })

/-- Enters classes into the index, and lists those whose name another class has already. -/
def enter (index : Table String ClassId) : List Class → Table String ClassId × List String
  | [] => (index, [])
  | c :: cs =>
    match c.id? with
    | none => enter index cs
    | some id =>
      match index.find? c.fullName with
      | some first =>
        let (index, duplicates) := enter index cs
        (index, if first = id then duplicates else c.fullName :: duplicates)
      | none => enter (index.record c.fullName id) cs

/-- Adds a unit, and lists those of its classes whose name another class has already. -/
def insert (s : SourceSet) (u : SourceUnit) : SourceSet × List String :=
  let (index, duplicates) := enter s.index u.classes
  ({ s with units := s.units ++ [u], index }, duplicates)

/-- The unit with an id. -/
def unit? (s : SourceSet) (id : UnitId) : Option SourceUnit := s.units.find? fun u => u.id = id

def classId? (s : SourceSet) (fullName : String) : Option ClassId := s.index.find? fullName

def contains (s : SourceSet) (fullName : String) : Bool := s.index.contains fullName

/-- The class with a full name. -/
def class? (s : SourceSet) (fullName : String) : Option Class := do
  let id ← s.classId? fullName
  let unit ← s.unit? id.source
  unit.class? id

/-- Whether a class is the one that counts under its full name. -/
def isIndexed (s : SourceSet) (c : Class) : Bool :=
  match c.id? with
  | some id => s.classId? c.fullName = some id
  | none => false

/-- The classes that count, in the order of units and of declarations. -/
def classes (s : SourceSet) : List Class := s.units.flatMap fun u => u.classes.filter s.isIndexed

/-- The packages of the units, each once, in order. Units without a package add none. -/
def packages (s : SourceSet) : List String :=
  (s.units.filterMap (·.package)).eraseDups.mergeSort fun a b => decide (a ≤ b)

end SourceSet

end JavaModel
