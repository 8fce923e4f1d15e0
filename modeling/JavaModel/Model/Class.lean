import JavaModel.Model.TypeRef
import JavaModel.Written

/-!
The structure of a class: its head, its members and the types they refer to.
-/

namespace JavaModel

/-- A field, or a constant of an enum. -/
structure Field where
  name : String
  modifiers : ModifierSet
  type : TypeRef
  /-- The text of the initializer, or of the arguments of an enum constant. -/
  initializer : Option String
  isEnumConstant : Bool
  annotations : List (AnnotationUse TypeRef)
  doc : Option String
  line : Nat
  /-- The full name of the class that declares the field. -/
  declaredIn : String
deriving Repr, Inhabited

/-- A parameter; those known from a registry have no name. -/
structure Parameter where
  name : Option String
  type : TypeRef
  modifiers : ModifierSet
  annotations : List (AnnotationUse TypeRef)
  isVarargs : Bool
deriving Repr, Inhabited

/-- A method, or a constructor when it has no return type. -/
structure Method where
  name : String
  modifiers : ModifierSet
  typeParameters : List (TypeParameter TypeRef)
  returnType : Option TypeRef
  parameters : List Parameter
  throwing : List TypeRef
  body : Option String
  defaultValue : Option String
  annotations : List (AnnotationUse TypeRef)
  doc : Option String
  line : Nat
  /-- The full name of the class that declares the method. -/
  declaredIn : String
deriving Repr, Inhabited

namespace Method

def isConstructor (m : Method) : Bool := m.returnType.isNone

/-- Whether the last parameter takes any number of arguments. -/
def isVarargs (m : Method) : Bool := (m.parameters.getLast?.map (·.isVarargs)).getD false

end Method

/-- Where a class is known from. -/
inductive ClassOrigin where
  | declared (id : ClassId)
  | registered
  /-- Made up for a name that nothing else knows. -/
  | stub
deriving DecidableEq, Repr, Inhabited

/-- The structure of a class, interface, enum, annotation type or record. -/
structure Class where
  name : String
  fullName : String
  package : Option String
  kind : ClassKind
  modifiers : ModifierSet
  typeParameters : List (TypeParameter TypeRef)
  /-- The class that it is written to extend; an interface has none. -/
  superclass : Option TypeRef
  interfaces : List TypeRef
  permitting : List TypeRef
  fields : List Field
  methods : List Method
  constructors : List Method
  nested : List ClassIndex
  enclosing : Option ClassIndex
  annotations : List (AnnotationUse TypeRef)
  doc : Option String
  line : Nat
  origin : ClassOrigin
deriving Repr, Inhabited

/-- A place in a class where a type is referred to. -/
inductive TypeSite where
  | superclass
  | interface
  | permitted
  | field (name : String)
  | returned (method : String)
  | parameter (method : String)
  | thrown (method : String)
  | bound (typeParameter : String)
  | annotated (element : String)
deriving DecidableEq, Repr, Inhabited

/-- The words for a place. -/
def TypeSite.render : TypeSite → String
  | superclass => "superclass"
  | interface => "interface"
  | permitted => "permitted subclass"
  | field name => "type of field '" ++ name ++ "'"
  | returned method => "return type of '" ++ method ++ "'"
  | parameter method => "parameter of '" ++ method ++ "'"
  | thrown method => "exception of '" ++ method ++ "'"
  | bound typeParameter => "bound of type parameter '" ++ typeParameter ++ "'"
  | annotated element => "annotation on '" ++ element ++ "'"

/-- A reference with its place and its line. -/
structure SitedRef where
  site : TypeSite
  line : Nat
  ref : TypeRef
deriving Repr, Inhabited

namespace SitedRef

/-- The references at annotations of an element. -/
def ofAnnotations (element : String) (line : Nat) (as : List (AnnotationUse TypeRef)) :
    List SitedRef :=
  as.map fun a => ⟨.annotated element, line, a.type⟩

/-- The references at bounds of type parameters. -/
def ofBounds (line : Nat) (ps : List (TypeParameter TypeRef)) : List SitedRef :=
  ps.flatMap fun p => p.bounds.map fun r => ⟨.bound p.name, line, r⟩

/-- The references of a field. -/
def ofField (f : Field) : List SitedRef :=
  ofAnnotations f.name f.line f.annotations ++ [⟨.field f.name, f.line, f.type⟩]

/-- The references of a parameter. Its annotations are told by its name, or by that of the method
when it has none. -/
def ofParameter (method : String) (line : Nat) (p : Parameter) : List SitedRef :=
  ofAnnotations (p.name.getD method) line p.annotations ++ [⟨.parameter method, line, p.type⟩]

/-- The references of a method or a constructor. -/
def ofMethod (m : Method) : List SitedRef :=
  ofAnnotations m.name m.line m.annotations ++ ofBounds m.line m.typeParameters ++
    (m.returnType.toList.map fun r => ⟨.returned m.name, m.line, r⟩) ++
    m.parameters.flatMap (ofParameter m.name m.line) ++
    m.throwing.map fun r => ⟨.thrown m.name, m.line, r⟩

end SitedRef

namespace Class

/-- The root of the class hierarchy. -/
def objectName : String := "java.lang.Object"

/-- A class of which nothing but the full name is known. -/
def bare (fullName : String) (kind : ClassKind) (origin : ClassOrigin) : Class :=
  { name := Name.simple fullName, fullName, package := Name.package? fullName, kind,
    modifiers := .empty, typeParameters := [], superclass := none, interfaces := [],
    permitting := [], fields := [], methods := [], constructors := [], nested := [],
    enclosing := none, annotations := [], doc := none, line := 0, origin }

/-- What stands for a class that nothing knows. -/
def stub (fullName : String) : Class := bare fullName .plainClass .stub

def isStub (c : Class) : Bool := c.origin = .stub

def isInterface (c : Class) : Bool := c.kind.isInterface

def isEnum (c : Class) : Bool := c.kind = .enumType

def isNested (c : Class) : Bool := c.enclosing.isSome

/-- The class's place among those declared, if it is declared. -/
def id? (c : Class) : Option ClassId :=
  match c.origin with
  | .declared id => some id
  | .registered | .stub => none

/-- The superclass of a class that is not written to extend one. -/
def implicitSuperclass? (c : Class) : Option String :=
  if c.superclass.isSome || c.isInterface || c.isStub || c.fullName = objectName then none
  else match c.kind with
    | .enumType => some "java.lang.Enum"
    | .recordType => some "java.lang.Record"
    | _ => some objectName

def field? (c : Class) (name : String) : Option Field := c.fields.find? fun f => f.name = name

/-- The names of the constants of an enum. -/
def enumConstants (c : Class) : List String :=
  (c.fields.filter fun f => f.isEnumConstant).map (·.name)

def methodsNamed (c : Class) (name : String) : List Method :=
  c.methods.filter fun m => m.name = name

/-- Every reference of a class with its place, the head's before the members', constructors before
methods. -/
def typeRefs (c : Class) : List SitedRef :=
  SitedRef.ofAnnotations c.name c.line c.annotations ++
    SitedRef.ofBounds c.line c.typeParameters ++
    (c.superclass.toList.map fun r => ⟨.superclass, c.line, r⟩) ++
    (c.interfaces.map fun r => ⟨.interface, c.line, r⟩) ++
    (c.permitting.map fun r => ⟨.permitted, c.line, r⟩) ++
    c.fields.flatMap SitedRef.ofField ++
    (c.constructors ++ c.methods).flatMap SitedRef.ofMethod

end Class

end JavaModel
