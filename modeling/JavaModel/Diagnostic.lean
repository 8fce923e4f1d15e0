import JavaModel.SourceError

/-!
What is told about sources that could not be read, and about declarations that are doubtful.
-/

namespace JavaModel

inductive Severity where
  | error
  | warning
deriving DecidableEq, Repr, Inhabited

def Severity.render : Severity → String
  | error => "error"
  | warning => "warning"

/-- A message about a source. Lines and columns count from one, and 0 is none. -/
structure Diagnostic where
  path : FilePath
  line : Nat
  column : Nat
  severity : Severity
  code : Option String
  message : String
deriving DecidableEq, Repr, Inhabited

namespace Diagnostic

/-- The place, the severity with its code, and the message. -/
def render (d : Diagnostic) : String :=
  let place :=
    if d.line = 0 then ""
    else ":" ++ toString d.line ++ if d.column = 0 then "" else ":" ++ toString d.column
  let code := match d.code with
    | some c => "[" ++ c ++ "]"
    | none => ""
  d.path.text ++ place ++ ": " ++ d.severity.render ++ code ++ ": " ++ d.message

/-- The code of an error. -/
def codeOf : SourceError → String
  | .malformed (.lexical _) => "E0001"
  | .malformed (.grammatical _) => "E0002"
  | .unreadable _ _ => "E0003"

/-- A source could not be read. -/
def ofError (path : FilePath) (e : SourceError) : Diagnostic :=
  let (line, column) := match e.position? with
    | some p => (p.line + 1, p.column + 1)
    | none => (0, 0)
  ⟨path, line, column, .error, some (codeOf e), e.message⟩

/-- A source declares a class that another declares too. -/
def duplicateClass (path : FilePath) (fullName : String) : Diagnostic :=
  ⟨path, 0, 0, .warning, some "W0001",
    "duplicate class '" ++ fullName ++ "'; the first declaration is kept"⟩

/-- A name refers to no class that is known. -/
def unresolvedType (path : FilePath) (line : Nat) (name site : String) : Diagnostic :=
  ⟨path, line, 0, .warning, some "W0002", "unresolved type '" ++ name ++ "' in " ++ site⟩

/-- The diagnostics about one source. -/
def forPath (path : FilePath) (ds : List Diagnostic) : List Diagnostic :=
  ds.filter fun d => d.path.same path

def errorCount (ds : List Diagnostic) : Nat := ds.countP fun d => d.severity = .error

def warningCount (ds : List Diagnostic) : Nat := ds.countP fun d => d.severity = .warning

end Diagnostic

end JavaModel
