import JavaModel.Model.SourceUnit
import JavaModel.Text.Lowercase

/-!
What a name written in a unit means. A simple name is, in this order, what a single import names, a
class in scope, a class of the unit's package, of a package imported whole, or of a package visible
everywhere. Only for the last three is anything outside the unit asked, and the first answer counts.
-/

namespace JavaModel

/-- What the imports of a unit make visible. Static imports do not import types here. -/
structure ImportScope where
  /-- The full names of single imports under their simple names; of two the first counts. -/
  single : Table String String
  /-- The packages imported whole, each once, in the order of declaration. -/
  whole : List String
deriving Repr, Inhabited

namespace ImportScope

def empty : ImportScope := ⟨.empty, []⟩

/-- The scope with one more import. -/
def add (s : ImportScope) (i : Import) : ImportScope :=
  if i.isStatic then s
  else if i.isWildcard then
    { s with whole := if s.whole.contains i.name then s.whole else s.whole ++ [i.name] }
  else { s with single := s.single.record (Name.simple i.name) i.name }

def ofImports (is : List Import) : ImportScope := is.foldl add empty

end ImportScope

/-- What a resolution may ask about classes outside the unit. -/
structure Surroundings (m : Type → Type) where
  /-- Whether a class with this full name is known. -/
  isKnown : String → m Bool
  /-- The packages visible everywhere. -/
  implicitPackages : List String

/-- The first name that is known. Names behind it are not asked about. -/
def firstKnown {m : Type → Type} [Monad m] (isKnown : String → m Bool) :
    List String → m (Option String)
  | [] => pure none
  | name :: names => do
    if ← isKnown name then pure (some name) else firstKnown isKnown names

namespace SourceUnit

/-- The full name of the class that a simple name means in a class of the unit: going outwards, the
class itself or one nested directly in it, and at last a top-level class. -/
def inScope? (u : SourceUnit) (context : Option ClassIndex) (name : String) : Option String :=
  let found := (u.scopeFrom context).findSome? fun c =>
    if c.name = name then some c.fullName
    else ((u.nestedClasses c).find? fun n => n.name = name).map (·.fullName)
  found.or ((u.topLevelClasses.find? fun c => c.name = name).map (·.fullName))

/-- The full names that a simple name may mean if nothing in the unit declares or imports it, the
likeliest first. -/
def candidates (u : SourceUnit) (implicitPackages : List String) (name : String) : List String :=
  Name.join u.package name ::
    (((ImportScope.ofImports u.imports).whole ++ implicitPackages).map fun p => p ++ "." ++ name)

variable {m : Type → Type} [Monad m]

/-- The full name that a simple name means. -/
def resolveSimple (u : SourceUnit) (around : Surroundings m) (context : Option ClassIndex)
    (name : String) : m (Option String) :=
  match ((ImportScope.ofImports u.imports).single.find? name).or (u.inScope? context name) with
  | some fullName => pure (some fullName)
  | none => firstKnown around.isKnown (u.candidates around.implicitPackages name)

/-- The part of a name before its first dot, and what follows the dot. -/
def splitHead (name : String) : String × Option String :=
  match Name.segments name with
  | head :: next :: rest => (head, some (Name.ofSegments (next :: rest)))
  | _ => (name, none)

/-- Whether a name begins with a small letter, as names of packages do. -/
def isPackageLike (head : String) : Bool := (head.toList.head?.map Text.isLowercase).getD false

/-- The full name that a name means. Of a dotted name the first segment is looked for, and the
others follow what it means; failing that, the name may be a full name already. -/
def resolveName (u : SourceUnit) (around : Surroundings m) (context : Option ClassIndex)
    (name : String) : m (Option String) := do
  match splitHead name with
  | (_, none) => u.resolveSimple around context name
  | (head, some rest) =>
    match ← u.resolveSimple around context head with
    | some outer => pure (some (outer ++ "." ++ rest))
    | none =>
      if ← around.isKnown name then pure (some name)
      else if isPackageLike head then pure (some name)
      else pure none

end SourceUnit

end JavaModel
