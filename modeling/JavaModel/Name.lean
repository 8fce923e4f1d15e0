import JavaModel.Text.Blank
import JavaModel.Text.IdentifierPart
import JavaModel.Text.Split
import JavaModel.Text.Uppercase

/-!
Dotted names: what makes one valid, and the parts one is read into.
-/

namespace JavaModel.Name

open JavaModel.Text

/-- The segments of a name between its dots; there is always one at least. -/
def segments (name : String) : List String := (splitAt '.' name.toList).map String.ofList

/-- Segments with a dot between each two. -/
def ofSegments (parts : List String) : String := ".".intercalate parts

/-- A letter, `$` or `_` first, and then letters, digits, marks or `$`. -/
def isIdentifier (name : String) : Bool :=
  match name.toList with
  | [] => false
  | c :: cs =>
    (c = '$' || c = '_' || isIdentifierStart c) && cs.all fun d => d = '$' || isIdentifierPart d

/-- Identifiers with dots between them. -/
def isQualified (name : String) : Bool := (segments name).all isIdentifier

/-- The part behind the last dot. -/
def simple (name : String) : String := (segments name).getLastD ""

/-- The part before the last dot, if there is a dot. -/
def qualifier? (name : String) : Option String :=
  match (segments name).dropLast with
  | [] => none
  | parts => some (ofSegments parts)

/-- Whether a name begins with a capital letter. -/
def isCapitalized (name : String) : Bool := (name.toList.head?.map isUppercase).getD false

/-- The package of a class name by convention: the segments before the first capitalized one, or all
but the last when none is. -/
def package? (name : String) : Option String :=
  let parts := segments name
  match parts.takeWhile fun s => !isCapitalized s with
  | [] => none
  | leading => if leading.length = parts.length then qualifier? name else some (ofSegments leading)

/-- A name inside a package or a class; an empty outer name counts as none. -/
def join (outer : Option String) (name : String) : String :=
  match outer with
  | some o => if o = "" then name else o ++ "." ++ name
  | none => name

/-- The end of a type read backwards: passes over blanks and counts pairs of brackets, and keeps
what comes next. -/
def dropBrackets (count : Nat) : List Char → List Char × Nat
  | ']' :: '[' :: rest => dropBrackets (count + 1) rest
  | c :: rest => if isBlank c then dropBrackets count rest else (c :: rest, count)
  | [] => ([], count)

/-- A type's text without its trailing pairs of brackets, and their number. -/
def splitDimensions (type : String) : String × Nat :=
  let (base, count) := dropBrackets 0 (trimLeft type.toList).reverse
  (String.ofList base.reverse, count)

/-- The names of the primitive types, and `void`. -/
def primitives : List String :=
  ["boolean", "byte", "char", "short", "int", "long", "float", "double", "void"]

/-- Whether a name is a primitive type or `void`. -/
def isPrimitive (name : String) : Bool := primitives.contains name

end JavaModel.Name
