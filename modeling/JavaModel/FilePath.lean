import JavaModel.Text.Split

/-!
Paths as text, with `/` between their components. A path keeps the text it was made with; two paths
are the same when their components are.
-/

namespace JavaModel

/-- A path in the text it was made with. -/
structure FilePath where
  text : String
deriving DecidableEq, Repr, Inhabited

namespace FilePath

/-- A part of a path. -/
inductive Component where
  | root
  | here
  | parent
  | name (n : String)
deriving DecidableEq, Repr, Inhabited

/-- The part that a piece of text between slashes stands for; an empty piece stands for none. -/
def component? (piece : List Char) : Option Component :=
  if piece = [] then none
  else if piece = ['.'] then some .here
  else if piece = ['.', '.'] then some .parent
  else some (.name (String.ofList piece))

/-- The components of a path. A dot counts only at the front of a relative path. -/
def components (p : FilePath) : List Component :=
  let parts := (Text.splitAt '/' p.text.toList).map component?
  let inner := parts.tail.filterMap fun c => if c = some .here then none else c
  match p.text.toList with
  | '/' :: _ => .root :: inner
  | _ => parts.head?.join.toList ++ inner

/-- Whether two paths have the same components. -/
def same (p q : FilePath) : Bool := p.components = q.components

def isAbsolute (p : FilePath) : Bool := p.text.toList.head? = some '/'

/-- The path `q` seen from `p`. An absolute path stays itself, and an empty one adds a slash. -/
def join (p q : FilePath) : FilePath :=
  if q.isAbsolute then q
  else if p.text = "" || p.text.toList.getLast? = some '/' then ⟨p.text ++ q.text⟩
  else ⟨p.text ++ "/" ++ q.text⟩

/-- The last component, if it is a name. -/
def fileName? (p : FilePath) : Option String :=
  match p.components.getLast? with
  | some (.name n) => some n
  | _ => none

/-- A file's name before and behind its last dot; a dot in front does not count. -/
def splitExtension (name : String) : String × Option String :=
  let pieces := Text.splitAt '.' name.toList
  match pieces.dropLast with
  | [] => (name, none)
  | [[]] => (name, none)
  | stem => (String.ofList (['.'].intercalate stem), pieces.getLast?.map String.ofList)

/-- What stands behind the last dot of the file's name. -/
def extension? (p : FilePath) : Option String :=
  p.fileName?.bind fun name => (splitExtension name).2

/-- A path backwards without the slashes and the dots of their own at its end. -/
def dropHere : List Char → List Char
  | '/' :: cs => dropHere cs
  | '.' :: '/' :: cs => dropHere cs
  | cs => cs

/-- The path with another extension; an empty one takes the extension away. A path that does not end
in a name stays as it is. -/
def withExtension (p : FilePath) (extension : String) : FilePath :=
  match p.fileName? with
  | none => p
  | some name =>
    let stem := (splitExtension name).1
    let kept := (dropHere p.text.toList.reverse).drop (name.length - stem.length)
    ⟨String.ofList kept.reverse ++ if extension = "" then "" else "." ++ extension⟩

end FilePath

end JavaModel
