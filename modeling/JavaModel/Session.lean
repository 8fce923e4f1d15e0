import JavaModel.Library.Chain
import JavaModel.Resolution

/-!
A session: the units added so far, the library that finds classes among them and elsewhere, and what
written names were found to mean. A question may change the session, since answers are kept and
files are read when they are needed.
-/

namespace JavaModel

/-- How a session loads sources and composes its library. -/
structure SessionOptions where
  /-- The extension of the files that are taken for sources. -/
  extension : String
  implicitPackages : List String
  /-- Whether a directory is read on after a file of it has failed. -/
  continueOnError : Bool
  hasJavaLang : Bool
  hasStub : Bool
  /-- Directories that are searched for classes not yet known. -/
  sourceRoots : List FilePath
deriving Repr, Inhabited

namespace SessionOptions

/-- Files ending in `.java`, the package `java.lang`, and all failures reported at once. -/
def standard : SessionOptions :=
  { extension := "java", implicitPackages := ["java.lang"], continueOnError := true,
    hasJavaLang := true, hasStub := false, sourceRoots := [] }

/-- The chain for the options: the units of the session, the registry of `java.lang`, the source
roots, and the stub. -/
def parts (o : SessionOptions) : List ChainPart :=
  [.parsedSources] ++ (if o.hasJavaLang then [.registry JavaLang.registry] else []) ++
    [.locators (o.sourceRoots.map fun root => .directory root o.extension)] ++
    (if o.hasStub then [.stub] else [])

end SessionOptions

/-- The state of a session. -/
structure Session where
  options : SessionOptions
  tree : FileTree
  implicitPackages : List String
  sources : SourceSet
  entries : List ChainEntry
  known : Resolutions
  hits : Nat
  misses : Nat
deriving Inhabited

/-- A question to a session, which may change it. -/
abbrev Query (α : Type) := StateM Session α

namespace Session

/-- A new session with a library of its own making. -/
def start (options : SessionOptions) (tree : FileTree) (parts : List ChainPart) : Session :=
  let plan := parts.foldl ChainPlan.add ⟨[], false, options.implicitPackages⟩
  { options, tree, implicitPackages := plan.implicitPackages, sources := .empty,
    entries := plan.chain.map ChainEntry.fresh, known := .empty, hits := 0, misses := 0 }

/-- A new session with the library that the options ask for. -/
def standard (options : SessionOptions) (tree : FileTree) : Session :=
  start options tree options.parts

/-- Counts a question. -/
def count (s : Session) : Tally → Session
  | .hit => { s with hits := s.hits + 1 }
  | .miss => { s with misses := s.misses + 1 }
  | .uncounted => s

/-- Asks the chain for a class. -/
def find (onlyExisting : Bool) (fullName : String) : Query (Option Answer) := do
  let s ← get
  let r := consult s.tree onlyExisting fullName 0 s.entries s.sources
  set (count { s with entries := r.entries, sources := r.sources } r.tally)
  pure r.answer

/-- The class with a full name. -/
def classNamed (fullName : String) : Query (Option Answer) := find false fullName

/-- Whether a class with a full name exists. Made-up classes do not count. -/
def hasClass (fullName : String) : Query Bool := do
  pure (← find true fullName).isSome

/-- The names of the strategies in the order in which they are asked. -/
def strategies (s : Session) : List String := s.entries.map (·.strategy.kind)

/-- The form of the library shown in dumps. -/
def describeLibrary (s : Session) : String :=
  "ClassLibrary \x7b strategies: [" ++ ", ".intercalate (s.strategies.map Text.quoted) ++
    "], stats: CacheStats \x7b hits: " ++ toString s.hits ++ ", misses: " ++ toString s.misses ++
    " \x7d \x7d"

/-! ### Resolution -/

/-- What the whole library knows. -/
def library (s : Session) : Surroundings Query := ⟨hasClass, s.implicitPackages⟩

/-- What the units of the session know by themselves. -/
def onlySources : Surroundings Query :=
  ⟨fun fullName => do pure ((← get).sources.contains fullName), []⟩

/-- The full name that a reference means, or its name as written if that means nothing yet. A
meaning once found is kept. -/
def resolve (around : Surroundings Query) (r : TypeRef) : Query String := do
  match r.origin with
  | .qualified | .typeVariable => pure r.name
  | .written slot context =>
    let s ← get
    match s.known.find? slot with
    | some fullName => pure fullName
    | none =>
      match s.sources.unit? slot.source with
      | none => pure r.name
      | some unit =>
        match ← unit.resolveName around context r.name with
        | some fullName => do
          modify fun s => { s with known := s.known.record slot fullName }
          pure fullName
        | none => pure r.name

mutual

/-- The text of a reference with all names in it resolved. -/
def genericValue (around : Surroundings Query) : TypeRef → Query String
  | ⟨name, args, dims, origin⟩ => do
    let value ← resolve around ⟨name, args, dims, origin⟩
    let args ← genericArgs around args
    pure (value ++ angleList args ++ brackets dims)

/-- The texts of type arguments with all names in them resolved. -/
def genericArgs (around : Surroundings Query) : List (Argument TypeRef) → Query (List String)
  | [] => pure []
  | a :: as => do
    let a ← genericArg around a
    let as ← genericArgs around as
    pure (a :: as)

/-- The text of a type argument with all names in it resolved. -/
def genericArg (around : Surroundings Query) : Argument TypeRef → Query String
  | .exactly t => genericValue around t
  | .unbounded => pure "?"
  | .extending t => do pure ("? extends " ++ (← genericValue around t))
  | .above t => do pure ("? super " ++ (← genericValue around t))

end

/-- The full name that a reference means to the library. -/
def resolveRef (r : TypeRef) : Query String := do resolve (← get).library r

end Session

end JavaModel
