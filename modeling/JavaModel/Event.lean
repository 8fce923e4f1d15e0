import JavaModel.Written

/-!
A source unit told as a sequence of events, in source order. Declarations begin and end, and a
documentation comment comes just before the beginning it belongs to.
-/

namespace JavaModel

/-- The declaration that a documentation comment belongs to. -/
inductive DocTarget where
  | onPackage
  | onClass (name : String)
  | onField (name : String)
  | onMethod (name : String)
  | onConstructor (name : String)
deriving DecidableEq, Repr, Inhabited

/-- One thing said about a source unit. -/
inductive Event where
  | beginSource
  | package (p : Written.Package)
  | imports (i : Import)
  | doc (text : String) (target : DocTarget)
  | beginClass (c : Written.Class)
  | endClass
  | beginField (f : Written.Field)
  | endField
  | beginMethod (m : Written.Method)
  | endMethod
  | endSource
deriving Repr, Inhabited

namespace Event

def class? : Event → Option Written.Class
  | beginClass c => some c
  | _ => none

def field? : Event → Option Written.Field
  | beginField f => some f
  | _ => none

def method? : Event → Option Written.Method
  | beginMethod m => some m
  | _ => none

/-- The class heads among events. -/
def classes (es : List Event) : List Written.Class := es.filterMap class?

/-- The fields among events. -/
def fields (es : List Event) : List Written.Field := es.filterMap field?

/-- The methods and constructors among events. -/
def methods (es : List Event) : List Written.Method := es.filterMap method?

end Event

end JavaModel
