import JavaModel.Identity
import JavaModel.Name
import JavaModel.Table
import JavaModel.Text.Quoted
import JavaModel.TypeExpr

/-!
References from the class model to types. A name written in source means what the imports, the
package and the classes around it make of it; what it means is found later, when it is asked for,
and kept in a table under the reference's slot.
-/

namespace JavaModel

/-- One written name of a unit. -/
structure Slot where
  source : UnitId
  number : Nat
deriving DecidableEq, Repr, Inhabited

/-- What gives a type reference its meaning: the place it is written at, with the class around it,
or its own name. -/
inductive TypeOrigin where
  | written (slot : Slot) (context : Option ClassIndex)
  | qualified
  | typeVariable
deriving DecidableEq, Repr, Inhabited

/-- A reference to a type, with its arguments and its pairs of brackets. -/
structure TypeRef where
  name : String
  args : List (Argument TypeRef)
  dims : Nat
  origin : TypeOrigin
deriving Repr

instance : Inhabited TypeRef := ⟨⟨"", [], 0, .qualified⟩⟩

/-- The full names that written names were found to mean. A name that is not found has no entry, so
that it can still be found later. -/
abbrev Resolutions := Table Slot String

namespace TypeRef

/-- A reference by full name to a type with brackets. -/
def ofText (text : String) : TypeRef :=
  let (base, dims) := Name.splitDimensions text
  ⟨base, [], dims, .qualified⟩

/-- The full name, if it is known. -/
def resolved? (known : Resolutions) (r : TypeRef) : Option String :=
  match r.origin with
  | .written slot _ => known.find? slot
  | .qualified | .typeVariable => some r.name

/-- The full name if it is known, else the name as written. -/
def value (known : Resolutions) (r : TypeRef) : String := (r.resolved? known).getD r.name

def isResolved (known : Resolutions) (r : TypeRef) : Bool := (r.resolved? known).isSome

def isArray (r : TypeRef) : Bool := 0 < r.dims

def isVariable (r : TypeRef) : Bool := r.origin = .typeVariable

/-- References are equal when they mean the same now; where they stand does not matter. -/
def same (known : Resolutions) (a b : TypeRef) : Bool :=
  a.value known = b.value known && a.dims = b.dims

/-- The text of a reference, without its arguments. -/
def render (known : Resolutions) (r : TypeRef) : String := r.value known ++ brackets r.dims

/-- The form shown in dumps. -/
def describe (known : Resolutions) (r : TypeRef) : String :=
  "TypeRef \x7b name: " ++ Text.quoted r.name ++ ", resolved: " ++
    (match r.resolved? known with
      | some name => "Some(" ++ Text.quoted name ++ ")"
      | none => "None") ++
    ", dimensions: " ++ toString r.dims ++ " \x7d"

mutual

/-- A reference and all that stand in its arguments at any depth; of two arguments the later comes
first. -/
def spread : TypeRef → List TypeRef
  | ⟨name, args, dims, origin⟩ => ⟨name, args, dims, origin⟩ :: spreadArgs args

/-- The references in type arguments. -/
def spreadArgs : List (Argument TypeRef) → List TypeRef
  | [] => []
  | a :: as => spreadArgs as ++ spreadArg a

/-- The references in a type argument. -/
def spreadArg : Argument TypeRef → List TypeRef
  | .exactly t | .extending t | .above t => t.spread
  | .unbounded => []

end

end TypeRef

end JavaModel
