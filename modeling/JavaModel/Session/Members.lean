import JavaModel.Session

/-!
Methods and constructors told apart by the types of their parameters.
-/

namespace JavaModel.Session

/-- The resolved type of a parameter, with brackets, and with dots when it takes any number of
arguments. -/
def parameterType (p : Parameter) : Query String := do
  let type ← resolveRef p.type
  pure (type ++ brackets p.type.dims ++ if p.isVarargs then "..." else "")

/-- The resolved types of all parameters of a method. -/
def parameterTypes (m : Method) : Query (List String) := m.parameters.mapM parameterType

/-- A method's name with the resolved types of its parameters. -/
def signature (m : Method) : Query String := do
  pure (m.name ++ "(" ++ ", ".intercalate (← parameterTypes m) ++ ")")

/-- Whether a method has a name and parameters of these types. Types are looked at only when the
name and the number of parameters fit. -/
def hasSignature (m : Method) (name : String) (types : List String) : Query Bool := do
  if m.name = name && m.parameters.length = types.length then
    pure ((← parameterTypes m) = types)
  else pure false

/-- The first method with a name and parameters of these types. -/
def firstWithSignature (name : String) (types : List String) : List Method → Query (Option Method)
  | [] => pure none
  | m :: ms => do
    if ← hasSignature m name types then pure (some m) else firstWithSignature name types ms

/-- The method of a class with a name and parameters of these types. -/
def method? (c : Class) (name : String) (types : List String) : Query (Option Method) :=
  firstWithSignature name types c.methods

/-- The constructor of a class with parameters of these types. -/
def constructor? (c : Class) (types : List String) : Query (Option Method) :=
  firstWithSignature c.name types c.constructors

end JavaModel.Session
