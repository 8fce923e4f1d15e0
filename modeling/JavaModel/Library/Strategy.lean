import JavaModel.Library.Locator
import JavaModel.Library.Registry
import JavaModel.SourceSet

/-!
The ways in which a library finds classes by full name.
-/

namespace JavaModel

/-- A way of finding a class. -/
inductive Strategy where
  /-- Among the units of the session. -/
  | parsedSources
  | registry (r : Registry)
  /-- In source files that are read when they are needed. -/
  | sourceRoots (locators : List Locator)
  /-- By making one up for any valid name. -/
  | stub
deriving Inhabited

namespace Strategy

def kind : Strategy → String
  | parsedSources => "parsed-sources"
  | registry _ => "registry"
  | sourceRoots _ => "source-roots"
  | stub => "stub"

/-- Whether a miss stays a miss for the rest of the session. The units of a session grow. -/
def cachesMisses : Strategy → Bool
  | parsedSources => false
  | _ => true

/-- Whether a class that is found really exists. -/
def isAuthoritative : Strategy → Bool
  | stub => false
  | _ => true

end Strategy

/-- What source roots have done so far. -/
structure Loading where
  sources : SourceSet
  /-- The files that were tried, by the components of their paths. -/
  attempted : List (List FilePath.Component)
deriving Repr, Inhabited

namespace Loading

/-- Reads a file that was not tried before and adds its unit, and says whether there was one to add.
A file that cannot be read takes no id, and one that is malformed takes one. -/
def attempt (l : Loading) (tree : FileTree) (locator : Locator) (p : FilePath) : Loading × Bool :=
  let attempted := l.attempted ++ [p.components]
  match locator.read tree p with
  | .error _ => ({ l with attempted }, false)
  | .ok text =>
    let (id, sources) := l.sources.reserveId
    match SourceUnit.ofText id p text with
    | .error _ => ({ sources, attempted }, false)
    | .ok unit => ({ sources := (sources.insert unit).1, attempted }, true)

/-- Tries the files not tried before, in order, up to one whose unit makes the class known. -/
def search (tree : FileTree) (fullName : String) : List (Locator × FilePath) → Loading → Loading
  | [], l => l
  | (locator, p) :: rest, l =>
    if l.attempted.contains p.components then search tree fullName rest l
    else
      let (l, added) := l.attempt tree locator p
      if added && l.sources.contains fullName then l else search tree fullName rest l

end Loading

end JavaModel
