/-!
Types as they are written. `Argument` is shared by types as written and by references to types in
the class model.
-/

namespace JavaModel

/-- A type argument: a type, or a wildcard with an upper bound, a lower bound or none. -/
inductive Argument (τ : Type) where
  | exactly (type : τ)
  | unbounded
  | extending (bound : τ)
  | above (bound : τ)
deriving Repr

namespace Argument

/-- The type of an argument or the bound of a wildcard, if there is one. -/
def type? {τ : Type} : Argument τ → Option τ
  | exactly t | extending t | above t => some t
  | unbounded => none

end Argument

/-- A type as written: its dotted name, the arguments of its last segment, and how many pairs of
brackets follow. -/
structure TypeExpr where
  name : String
  args : List (Argument TypeExpr)
  dims : Nat
deriving Repr

instance : Inhabited TypeExpr := ⟨⟨"", [], 0⟩⟩

namespace TypeExpr

/-- A type without arguments and brackets. -/
def simple (name : String) : TypeExpr := ⟨name, [], 0⟩

/-- The type with further pairs of brackets. -/
def addDims (t : TypeExpr) (extra : Nat) : TypeExpr := { t with dims := t.dims + extra }

end TypeExpr

/-- Pairs of brackets. -/
def brackets (count : Nat) : String := String.join (List.replicate count "[]")

/-- Type arguments between angle brackets, or nothing when there are none. -/
def angleList (args : List String) : String :=
  if args.isEmpty then "" else "<" ++ ", ".intercalate args ++ ">"

mutual

/-- The text of a type. -/
def TypeExpr.render : TypeExpr → String
  | ⟨name, args, dims⟩ => name ++ angleList (renderArgs args) ++ brackets dims

/-- The texts of type arguments. -/
def TypeExpr.renderArgs : List (Argument TypeExpr) → List String
  | [] => []
  | a :: as => TypeExpr.renderArg a :: renderArgs as

/-- The text of a type argument. -/
def TypeExpr.renderArg : Argument TypeExpr → String
  | .exactly t => t.render
  | .unbounded => "?"
  | .extending t => "? extends " ++ t.render
  | .above t => "? super " ++ t.render

end

end JavaModel
