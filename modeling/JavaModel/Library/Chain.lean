import JavaModel.Library.JavaLang
import JavaModel.Library.Strategy

/-!
A library of classes: strategies asked one after the other. Each keeps the classes it found and, if
its misses are final, the names it does not know; a name that one strategy misses is still asked of
those behind it.
-/

namespace JavaModel

/-- A strategy with what it has answered so far. -/
structure ChainEntry where
  strategy : Strategy
  found : Table String Class
  absent : List String
  /-- The files that source roots have tried. -/
  attempted : List (List FilePath.Component)
deriving Inhabited

/-- A strategy that has not been asked yet. -/
def ChainEntry.fresh (strategy : Strategy) : ChainEntry := ⟨strategy, .empty, [], []⟩

/-- What a strategy's earlier answers say about a name. -/
inductive Recollection where
  | found (c : Class)
  | absent
  | unknown
deriving Repr, Inhabited

/-- How a question counts: as answered from memory, as answered by asking a strategy, or not at all
because there was nothing to ask. -/
inductive Tally where
  | hit
  | miss
  | uncounted
deriving DecidableEq, Repr, Inhabited

/-- A class, and the position in the chain of the strategy that answered with it. -/
structure Answer where
  position : Nat
  found : Class
deriving Repr, Inhabited

/-- Whether two answers are one and the same class: the same declaration, or one class that the same
strategy keeps. -/
def Answer.same (a b : Answer) : Bool :=
  match a.found.id?, b.found.id? with
  | some i, some j => i = j
  | none, none => a.position = b.position && a.found.fullName = b.found.fullName
  | _, _ => false

namespace ChainEntry

/-- What earlier answers say about a name. -/
def remembered (e : ChainEntry) (name : String) : Recollection :=
  match e.found.find? name with
  | some c => .found c
  | none => if e.absent.contains name then .absent else .unknown

/-- Asks the strategy itself. Source roots may add units to the session. -/
def ask (e : ChainEntry) (tree : FileTree) (sources : SourceSet) (name : String) :
    Option Class × ChainEntry × SourceSet :=
  match e.strategy with
  | .parsedSources => (sources.class? name, e, sources)
  | .registry r => ((r.find? name).map ClassShape.toClass, e, sources)
  | .sourceRoots locators =>
    let files := locators.flatMap fun l => (l.candidates tree name).map fun p => (l, p)
    let done := Loading.search tree name files ⟨sources, e.attempted⟩
    (done.sources.class? name, { e with attempted := done.attempted }, done.sources)
  | .stub => (if Name.isQualified name then some (.stub name) else none, e, sources)

/-- Keeps an answer, if answers of its sort are kept. -/
def keep (e : ChainEntry) (name : String) : Option Class → ChainEntry
  | some c => { e with found := e.found.record name c }
  | none =>
    if e.strategy.cachesMisses && !e.absent.contains name then
      { e with absent := e.absent ++ [name] }
    else e

end ChainEntry

/-- The outcome of a question to a chain. -/
structure Consulted where
  answer : Option Answer
  entries : List ChainEntry
  sources : SourceSet
  tally : Tally
deriving Inhabited

namespace Consulted

/-- The outcome with an entry in front that had no class to answer with, having been asked or not.
-/
def behind (r : Consulted) (e : ChainEntry) (asked : Bool) : Consulted :=
  { r with
    entries := e :: r.entries,
    tally := if r.answer.isSome then r.tally
      else if asked || r.tally = .miss then .miss else .hit }

end Consulted

/-- Asks the entries of a chain from a position on for a class. Only authoritative strategies are
asked if only existing classes count. -/
def consult (tree : FileTree) (onlyExisting : Bool) (name : String) :
    Nat → List ChainEntry → SourceSet → Consulted
  | _, [], sources => ⟨none, [], sources, .uncounted⟩
  | position, e :: es, sources =>
    if onlyExisting && !e.strategy.isAuthoritative then
      let r := consult tree onlyExisting name (position + 1) es sources
      { r with entries := e :: r.entries }
    else
      match e.remembered name with
      | .found c => ⟨some ⟨position, c⟩, e :: es, sources, .hit⟩
      | .absent => (consult tree onlyExisting name (position + 1) es sources).behind e false
      | .unknown =>
        match e.ask tree sources name with
        | (some c, e, sources) =>
          ⟨some ⟨position, c⟩, e.keep name (some c) :: es, sources, .miss⟩
        | (none, e, sources) =>
          (consult tree onlyExisting name (position + 1) es sources).behind (e.keep name none) true

/-- Parts of a chain in the order in which a host adds them. -/
inductive ChainPart where
  | parsedSources
  | registry (r : Registry)
  | locators (ls : List Locator)
  | stub
  | implicitPackages (ps : List String)
deriving Inhabited

/-- A chain in the making. -/
structure ChainPlan where
  strategies : List Strategy
  hasStub : Bool
  implicitPackages : List String
deriving Inhabited

namespace ChainPlan

/-- Adds a part. No locators add no strategy, and of several lists of packages the last counts. -/
def add (p : ChainPlan) : ChainPart → ChainPlan
  | .parsedSources => { p with strategies := p.strategies ++ [.parsedSources] }
  | .registry r => { p with strategies := p.strategies ++ [.registry r] }
  | .locators ls =>
    if ls.isEmpty then p else { p with strategies := p.strategies ++ [.sourceRoots ls] }
  | .stub => { p with hasStub := true }
  | .implicitPackages implicitPackages => { p with implicitPackages }

/-- The strategies in the order in which they are asked, the stub last. -/
def chain (p : ChainPlan) : List Strategy :=
  p.strategies ++ if p.hasStub then [.stub] else []

end ChainPlan

end JavaModel
