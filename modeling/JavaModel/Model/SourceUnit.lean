import JavaModel.FilePath
import JavaModel.Model.Class

/-!
A source unit: the package, the imports and all classes of one text.
-/

namespace JavaModel

/-- One text's declarations. Nested classes stand in the same list as the others and refer to each
other by their place in it. -/
structure SourceUnit where
  id : UnitId
  path : FilePath
  package : Option String
  packageDoc : Option String
  packageAnnotations : List (AnnotationUse TypeRef)
  imports : List Import
  classes : List Class
  topLevel : List ClassIndex
deriving Repr, Inhabited

namespace SourceUnit

/-- The class at a place. -/
def classAt? (u : SourceUnit) (i : ClassIndex) : Option Class := u.classes[i.number]?

/-- The class with an id, if the id is one of this unit. -/
def class? (u : SourceUnit) (id : ClassId) : Option Class :=
  if id.source = u.id then u.classAt? id.index else none

/-- The first class with a full name. -/
def classNamed? (u : SourceUnit) (fullName : String) : Option Class :=
  u.classes.find? fun c => c.fullName = fullName

/-- The classes that are not nested in others. -/
def topLevelClasses (u : SourceUnit) : List Class := u.topLevel.filterMap u.classAt?

/-- The classes nested directly in a class. -/
def nestedClasses (u : SourceUnit) (c : Class) : List Class := c.nested.filterMap u.classAt?

/-- The class at a place and those around it, from the inside out, `bound` of them at most. -/
def outward (u : SourceUnit) : Nat → Option ClassIndex → List Class
  | bound + 1, some i =>
    match u.classAt? i with
    | some c => c :: outward u bound c.enclosing
    | none => []
  | _, _ => []

/-- The class at a place and those around it, from the inside out. -/
def scopeFrom (u : SourceUnit) (i : Option ClassIndex) : List Class := u.outward u.classes.length i

end SourceUnit

end JavaModel
