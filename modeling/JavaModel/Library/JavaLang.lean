import JavaModel.Library.Registry

/-!
The classes of the package `java.lang` that most sources lean on.
-/

namespace JavaModel.JavaLang

def object : String := "java.lang.Object"

def string : String := "java.lang.String"

/-- A name of the package. -/
def named (simple : String) : String := "java.lang." ++ simple

def onlyPublic : ModifierSet := .ofList [.isPublic]

def publicFinal : ModifierSet := .ofList [.isPublic, .isFinal]

def publicAbstract : ModifierSet := .ofList [.isPublic, .isAbstract]

def publicStatic : ModifierSet := .ofList [.isPublic, .isStatic]

/-- A constructor that takes parameters of these types. -/
def taking (parameters : List String) : MethodShape :=
  { name := "", returnType := none, parameters, throwing := [], modifiers := onlyPublic }

/-- A method. -/
def method (name returnType : String) (modifiers : ModifierSet) (parameters : List String) :
    MethodShape :=
  { name, returnType := some returnType, parameters, throwing := [], modifiers }

/-- A class without members. -/
def extending (simple : String) (modifiers : ModifierSet) (superclass : String)
    (interfaces : List String) : ClassShape :=
  { ClassShape.plain .plainClass (named simple) with
    modifiers, superclass := some superclass, interfaces }

def objectClass : ClassShape :=
  { ClassShape.plain .plainClass object with
    constructors := [taking []],
    methods :=
      [method "equals" "boolean" onlyPublic [object], method "hashCode" "int" onlyPublic [],
       method "toString" string onlyPublic [], method "getClass" (named "Class") publicFinal []] }

def stringClass : ClassShape :=
  { extending "String" publicFinal object [named "CharSequence", named "Comparable"] with
    constructors := [taking []],
    methods :=
      [method "length" "int" onlyPublic [], method "isEmpty" "boolean" onlyPublic [],
       method "charAt" "char" onlyPublic ["int"],
       method "substring" string onlyPublic ["int", "int"],
       method "valueOf" string publicStatic [object]] }

def interfaces : List ClassShape :=
  ["CharSequence", "Comparable", "Iterable", "Runnable", "AutoCloseable", "Cloneable"].map fun n =>
    ClassShape.plain .interfaceType (named n)

def enumClass : ClassShape :=
  { extending "Enum" publicAbstract object [named "Comparable"] with
    methods := [method "name" string publicFinal [], method "ordinal" "int" publicFinal []] }

def bareClasses : List ClassShape :=
  [extending "Record" publicAbstract object [], extending "Class" publicFinal object [],
   extending "Number" publicAbstract object [], extending "Math" publicFinal object [],
   extending "System" publicFinal object [],
   extending "Thread" onlyPublic object [named "Runnable"],
   extending "StringBuilder" publicFinal object [named "CharSequence"],
   extending "Void" publicFinal object []]

/-- The classes that hold one number. -/
def numberClasses : List ClassShape :=
  ["Integer", "Long", "Short", "Byte", "Float", "Double"].map fun n =>
    extending n publicFinal (named "Number") [named "Comparable"]

/-- The classes that hold one value that is no number. -/
def valueClasses : List ClassShape :=
  ["Boolean", "Character"].map fun n => extending n publicFinal object [named "Comparable"]

/-- A class of exceptions. -/
def throwable (simple superclass : String) : ClassShape :=
  { extending simple onlyPublic superclass [] with
    constructors := [taking [], taking [string]],
    methods := [method "getMessage" string onlyPublic []] }

def throwables : List ClassShape :=
  [throwable "Throwable" object,
   throwable "Exception" (named "Throwable"),
   throwable "Error" (named "Throwable"),
   throwable "RuntimeException" (named "Exception"),
   throwable "IllegalArgumentException" (named "RuntimeException"),
   throwable "IllegalStateException" (named "RuntimeException"),
   throwable "NullPointerException" (named "RuntimeException"),
   throwable "UnsupportedOperationException" (named "RuntimeException"),
   throwable "IndexOutOfBoundsException" (named "RuntimeException"),
   throwable "ClassCastException" (named "RuntimeException"),
   throwable "InterruptedException" (named "Exception"),
   throwable "CloneNotSupportedException" (named "Exception")]

def annotationTypes : List ClassShape :=
  ["Override", "Deprecated", "SuppressWarnings", "FunctionalInterface", "SafeVarargs"].map fun n =>
    { ClassShape.plain .annotationType (named n) with modifiers := publicAbstract }

/-- These classes in order. -/
def memory : MemoryRegistry :=
  .ofList ([objectClass, stringClass] ++ interfaces ++ [enumClass] ++ bareClasses ++
    numberClasses ++ valueClasses ++ throwables ++ annotationTypes)

/-- The registry of these classes. -/
def registry : Registry := memory.registry

end JavaModel.JavaLang
