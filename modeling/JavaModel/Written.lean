import JavaModel.Modifier
import JavaModel.TypeExpr

/-!
Declarations as they are written, without their members and without any meaning given to the names
in them. Bodies, initializers and the arguments of annotations stay raw text.
-/

namespace JavaModel

/-- The kinds of type declarations. -/
inductive ClassKind where
  | plainClass | interfaceType | enumType | annotationType | recordType
deriving DecidableEq, Repr, Inhabited

namespace ClassKind

/-- The words that begin a declaration of the kind. -/
def keyword : ClassKind → String
  | plainClass => "class"
  | interfaceType => "interface"
  | enumType => "enum"
  | annotationType => "@interface"
  | recordType => "record"

/-- Annotation types are interfaces too. -/
def isInterface : ClassKind → Bool
  | interfaceType | annotationType => true
  | _ => false

end ClassKind

/-- An annotation, with the raw text between its parentheses, if it has them. -/
structure AnnotationUse (τ : Type) where
  type : τ
  args : Option String
deriving Repr

/-- A type parameter and its bounds. -/
structure TypeParameter (τ : Type) where
  name : String
  bounds : List τ
deriving Repr

/-- An imported name, without the star of a wildcard import. -/
structure Import where
  name : String
  isStatic : Bool
  isWildcard : Bool
  line : Nat
deriving DecidableEq, Repr, Inhabited

namespace Written

/-- A package declaration. -/
structure Package where
  name : String
  annotations : List (AnnotationUse String)
  line : Nat
deriving Repr, Inhabited

/-- The head of a type declaration. An interface lists the interfaces it extends in `extending`. -/
structure Class where
  kind : ClassKind
  name : String
  modifiers : List Modifier
  annotations : List (AnnotationUse String)
  typeParameters : List (TypeParameter TypeExpr)
  extending : List TypeExpr
  implementing : List TypeExpr
  permitting : List TypeExpr
  line : Nat
deriving Repr, Inhabited

/-- A field, or a constant of an enum. -/
structure Field where
  name : String
  modifiers : List Modifier
  annotations : List (AnnotationUse String)
  type : TypeExpr
  initializer : Option String
  isEnumConstant : Bool
  line : Nat
deriving Repr, Inhabited

/-- A parameter of a method or a constructor. -/
structure Parameter where
  name : Option String
  type : TypeExpr
  modifiers : List Modifier
  annotations : List (AnnotationUse String)
  isVarargs : Bool
deriving Repr, Inhabited

/-- A method, or a constructor when it returns nothing, not even `void`. -/
structure Method where
  name : String
  modifiers : List Modifier
  annotations : List (AnnotationUse String)
  typeParameters : List (TypeParameter TypeExpr)
  returnType : Option TypeExpr
  parameters : List Parameter
  throwing : List TypeExpr
  body : Option String
  defaultValue : Option String
  line : Nat
deriving Repr, Inhabited

/-- Constructors have no return type. -/
def Method.isConstructor (m : Method) : Bool := m.returnType.isNone

end Written

end JavaModel
