import JavaModel.Model.Class

/-!
Classes known by their structure alone, without a source. Types are given by full name with pairs of
brackets.
-/

namespace JavaModel

/-- What is known of a field. -/
structure FieldShape where
  name : String
  type : String
  modifiers : ModifierSet
deriving DecidableEq, Repr, Inhabited

/-- What is known of a method or a constructor. -/
structure MethodShape where
  name : String
  returnType : Option String
  parameters : List String
  throwing : List String
  modifiers : ModifierSet
deriving DecidableEq, Repr, Inhabited

/-- What is known of a class. -/
structure ClassShape where
  fullName : String
  package : Option String
  kind : ClassKind
  modifiers : ModifierSet
  superclass : Option String
  interfaces : List String
  fields : List FieldShape
  methods : List MethodShape
  constructors : List MethodShape
deriving DecidableEq, Repr, Inhabited

namespace ClassShape

/-- The modifiers of a class when nothing else is said: interfaces are abstract. -/
def defaultModifiers : ClassKind → ModifierSet
  | .interfaceType => .ofList [.isPublic, .isAbstract]
  | _ => .ofList [.isPublic]

/-- A class without supertypes and members, in the package that its full name suggests. -/
def plain (kind : ClassKind) (fullName : String) : ClassShape :=
  { fullName, package := Name.package? fullName, kind, modifiers := defaultModifiers kind,
    superclass := none, interfaces := [], fields := [], methods := [], constructors := [] }

/-- The field of a class. -/
def field (owner : String) (f : FieldShape) : Field :=
  { name := f.name, modifiers := f.modifiers, type := .ofText f.type, initializer := none,
    isEnumConstant := false, annotations := [], doc := none, line := 0, declaredIn := owner }

/-- A parameter, of which only the type is known. -/
def parameter (type : String) : Parameter :=
  { name := none, type := .ofText type, modifiers := .empty, annotations := [],
    isVarargs := false }

/-- The method of a class, under a name. -/
def method (owner name : String) (m : MethodShape) : Method :=
  { name, modifiers := m.modifiers, typeParameters := [], returnType := m.returnType.map .ofText,
    parameters := m.parameters.map parameter, throwing := m.throwing.map .ofText, body := none,
    defaultValue := none, annotations := [], doc := none, line := 0, declaredIn := owner }

/-- The class that has the shape. Constructors have the class's simple name. -/
def toClass (s : ClassShape) : Class :=
  let base := Class.bare s.fullName s.kind .registered
  { base with
    package := s.package, modifiers := s.modifiers, superclass := s.superclass.map .ofText,
    interfaces := s.interfaces.map .ofText, fields := s.fields.map (field s.fullName),
    methods := s.methods.map fun m => method s.fullName m.name m,
    constructors := s.constructors.map (method s.fullName base.name) }

end ClassShape

/-- What a host knows of classes by full name. A name of which it knows nothing is no class. -/
structure Registry where
  find? : String → Option ClassShape
  /-- It is keyed by full name. -/
  named : ∀ name, ∀ shape ∈ find? name, shape.fullName = name

instance : Inhabited Registry := ⟨fun _ => none, fun _ _ h => nomatch h⟩

/-- The registry knows finitely many classes, such as those that have been loaded. -/
def Registry.IsFinite (r : Registry) : Prop :=
  ∃ names : List String, ∀ name, (r.find? name).isSome → name ∈ names

/-- Classes by full name, in the order they were first entered. -/
structure MemoryRegistry where
  shapes : List ClassShape
deriving DecidableEq, Repr, Inhabited

namespace MemoryRegistry

def empty : MemoryRegistry := ⟨[]⟩

def find? (r : MemoryRegistry) (fullName : String) : Option ClassShape :=
  r.shapes.find? fun s => s.fullName = fullName

/-- Enters a class, in the place of one with its name. -/
def insert (r : MemoryRegistry) (s : ClassShape) : MemoryRegistry :=
  if (r.find? s.fullName).isSome then
    ⟨r.shapes.map fun old => if old.fullName = s.fullName then s else old⟩
  else ⟨r.shapes ++ [s]⟩

def ofList (ss : List ClassShape) : MemoryRegistry := ss.foldl insert empty

def names (r : MemoryRegistry) : List String := r.shapes.map (·.fullName)

theorem fullName_of_find? {r : MemoryRegistry} {fullName : String} {s : ClassShape}
    (h : r.find? fullName = some s) : s.fullName = fullName :=
  of_decide_eq_true (List.find?_some h :)

/-- What stands in memory serves as a registry. -/
def registry (r : MemoryRegistry) : Registry := ⟨r.find?, fun _ _ => fullName_of_find?⟩

theorem isFinite_registry (r : MemoryRegistry) : r.registry.IsFinite := by
  refine ⟨r.names, fun name hname => ?_⟩
  obtain ⟨s, hs⟩ := Option.isSome_iff_exists.mp hname
  exact List.mem_map.mpr ⟨s, List.mem_of_find?_eq_some hs, fullName_of_find? hs⟩

end MemoryRegistry

/-- The registry of certain classes, of which the last of each name counts. -/
def Registry.ofList (ss : List ClassShape) : Registry := (MemoryRegistry.ofList ss).registry

end JavaModel
