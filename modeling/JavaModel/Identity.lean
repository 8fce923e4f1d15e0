/-!
Numbers that name the units of a session and the classes of a unit.
-/

namespace JavaModel

/-- A unit of a session. -/
structure UnitId where
  number : Nat
deriving DecidableEq, Repr, Inhabited

namespace UnitId

/-- The short form shown to people. -/
def render (id : UnitId) : String := "source#" ++ toString id.number

/-- The form shown in dumps. -/
def describe (id : UnitId) : String := "SourceId(" ++ toString id.number ++ ")"

end UnitId

/-- A class of a unit by its place in declaration order: outer classes come before the classes
nested in them. -/
structure ClassIndex where
  number : Nat
deriving DecidableEq, Repr, Inhabited

/-- The form shown in dumps. -/
def ClassIndex.describe (i : ClassIndex) : String := "LocalClassId(" ++ toString i.number ++ ")"

/-- A class that a unit declares. -/
structure ClassId where
  source : UnitId
  index : ClassIndex
deriving DecidableEq, Repr, Inhabited

/-- The form shown in dumps. -/
def ClassId.describe (id : ClassId) : String :=
  "ClassId(" ++ id.source.describe ++ ":" ++ toString id.index.number ++ ")"

end JavaModel
