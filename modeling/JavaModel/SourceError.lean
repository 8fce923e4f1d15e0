import JavaModel.FilePath
import JavaModel.Grammar.CompilationUnit
import JavaModel.Model.Assembly

/-!
Source texts read as units, and what can keep one from being read.
-/

namespace JavaModel

/-- Why a file gives no text. -/
inductive ReadFault where
  | notFound
  | notDirectory
  | isDirectory
  | notText
  /-- A name in the path, or the path itself, is longer than the system takes. -/
  | nameTooLong
  /-- The path holds a NUL, which ends a path where it is handed to the system. -/
  | nulInPath
  | other (message : String)
  /-- A fault met at a path while a directory was walked. -/
  | walking (path : FilePath) (fault : ReadFault)
deriving DecidableEq, Repr, Inhabited

/-- The words for a fault. -/
def ReadFault.message : ReadFault → String
  | notFound => "No such file or directory (os error 2)"
  | notDirectory => "Not a directory (os error 20)"
  | isDirectory => "Is a directory (os error 21)"
  | notText => "stream did not contain valid UTF-8"
  | nameTooLong => "File name too long (os error 36)"
  | nulInPath => "file name contained an unexpected NUL byte"
  | other message => message
  | walking path fault => "IO error for operation on " ++ path.text ++ ": " ++ fault.message

/-- Why there is no unit of a source. -/
inductive SourceError where
  | malformed (e : SyntaxError)
  | unreadable (path : FilePath) (fault : ReadFault)
deriving DecidableEq, Repr, Inhabited

namespace SourceError

def message : SourceError → String
  | malformed e => e.message
  | unreadable path fault => "cannot read " ++ path.text ++ ": " ++ fault.message

/-- The position of the error, if it has one. -/
def position? : SourceError → Option Position
  | malformed e => some e.position
  | unreadable _ _ => none

end SourceError

namespace SourceUnit

/-- The unit that a text declares. -/
def ofText (id : UnitId) (path : FilePath) (text : String) : Except SourceError SourceUnit :=
  let parsed := parse text
  match parsed.error with
  | some e => .error (.malformed e)
  | none => .ok (ofEvents id path parsed.events)

/-- The unit that a text in bytes declares. -/
def ofBytes (id : UnitId) (path : FilePath) (bytes : ByteArray) : Except SourceError SourceUnit :=
  match String.fromUTF8? bytes with
  | some text => ofText id path text
  | none => .error (.unreadable path .notText)

/-- The unit that a reader's text declares: the bytes that it gave up to its end, or its fault. -/
def ofReader (id : UnitId) (path : FilePath) :
    Except ReadFault ByteArray → Except SourceError SourceUnit
  | .ok bytes => ofBytes id path bytes
  | .error fault => .error (.unreadable path fault)

end SourceUnit

end JavaModel
