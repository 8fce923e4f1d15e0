import JavaModel.Grammar.RawText

/-!
Annotations, modifiers, types and parameters.
-/

namespace JavaModel.Grammar

open Reader Lexeme

/-! ### Names and annotations -/

/-- The further segments of a dotted name: as many as follow, each an identifier behind a dot. -/
def takeSegments (name : String) : List Lexeme → String × List Lexeme
  | d :: l :: ls =>
    if d.kind = .dot && l.kind = .identifier then takeSegments (name ++ "." ++ l.text) ls
    else (name, d :: l :: ls)
  | ls => (name, ls)

/-- A dotted name. -/
def qualifiedName : Reader String := do
  let first ← identifier .name
  let (name, rest) := takeSegments first (← lookAhead)
  continueWith rest
  pure name

/-- Whether an annotation stands next, and not the head of an annotation type. -/
def startsAnnotationUse (ls : List Lexeme) : Bool :=
  kindAt ls 0 = some .atSign && kindAt ls 1 ≠ some .interfaceWord

/-- The annotation that stands next. -/
def annotationUse : Reader (AnnotationUse String) := do
  skip 1
  let name ← qualifiedName
  if ← atKind .leftParen then pure ⟨name, some (← enclosed .paren)⟩
  else pure ⟨name, none⟩

/-- The annotations that stand next. -/
def annotations : Reader (List (AnnotationUse String)) := many startsAnnotationUse annotationUse

/-! ### Modifiers -/

/-- Whether a kind may stand behind the word `sealed` when that is a modifier. -/
def followsSealed : Option TokenKind → Bool
  | none => false
  | some k => k.isModifier ||
    match k with
    | .classWord | .interfaceWord | .identifier | .atSign => true
    | _ => false

/-- The modifier that stands next, and how many lexemes write it. -/
def modifierAt? (ls : List Lexeme) : Option (Modifier × Nat) :=
  match kindAt ls 0 with
  | some (.modifier m) => some (m, 1)
  | _ =>
    if isWordAt ls 0 "sealed" && followsSealed (kindAt ls 1) then some (.isSealed, 1)
    else if isWordAt ls 0 "non" && kindAt ls 1 = some .minus && isWordAt ls 2 "sealed" then
      some (.isNonSealed, 3)
    else none

/-- Modifiers and annotations, which may be mixed. -/
structure Decorations where
  modifiers : List Modifier
  annotations : List (AnnotationUse String)
deriving Repr, Inhabited

/-- One round of `decorations`. -/
def decorationsBody (self : Unit → Reader Decorations) (_ : Unit) : Reader Decorations := do
  let ls ← lookAhead
  if startsAnnotationUse ls then
    let a ← annotationUse
    let more ← self ()
    pure { more with annotations := a :: more.annotations }
  else
    match modifierAt? ls with
    | some (m, n) => do
      skip n
      let more ← self ()
      pure { more with modifiers := m :: more.modifiers }
    | none => pure ⟨[], []⟩

/-- The modifiers and annotations that stand next. -/
def decorations : Reader Decorations := recurse decorationsBody ()

/-! ### Types -/

/-- The number of pairs of brackets in front, and what follows them. -/
def countDims : List Lexeme → Nat × List Lexeme
  | l :: r :: ls =>
    if l.kind = .leftBracket && r.kind = .rightBracket then
      let (n, rest) := countDims ls
      (n + 1, rest)
    else (0, l :: r :: ls)
  | ls => (0, ls)

/-- The pairs of brackets that stand next. -/
def dims : Reader Nat := fun ls =>
  let (n, rest) := countDims ls
  ([], .ok (n, rest))

/-- One type argument. -/
def typeArgument (type : Reader TypeExpr) : Reader (Argument TypeExpr) := do
  let _ ← annotations
  if ← accept .question then
    if ← accept .extendsWord then pure (.extending (← type))
    else if ← accept .superWord then pure (.above (← type))
    else pure .unbounded
  else pure (.exactly (← type))

/-- The type arguments that stand next, if any; empty angle brackets hold none. -/
def typeArguments (type : Reader TypeExpr) : Reader (List (Argument TypeExpr)) := do
  if ← accept .less then
    if ← accept .greater then pure []
    else
      let args ← separated .comma (typeArgument type)
      let _ ← expect .greater .typeArgumentsEnd
      pure args
  else pure []

/-- Whether another segment of a type's name stands next. -/
def startsTypeSegment (ls : List Lexeme) : Bool :=
  kindAt ls 0 = some .dot && (kindAt ls 1 = some .identifier || kindAt ls 1 = some .atSign)

/-- One round of `typeSegments`. -/
def typeSegmentsBody (type : Reader TypeExpr)
    (self : String → Reader (String × List (Argument TypeExpr))) (name : String) :
    Reader (String × List (Argument TypeExpr)) := do
  let args ← typeArguments type
  if startsTypeSegment (← lookAhead) then
    skip 1
    let _ ← annotations
    let segment ← identifier .typeName
    self (name ++ "." ++ segment)
  else pure (name, args)

/-- What follows the first segment of a type's name: its arguments and further segments. Only the
arguments of the last segment are kept. -/
def typeSegments (type : Reader TypeExpr) (name : String) :
    Reader (String × List (Argument TypeExpr)) :=
  recurse (typeSegmentsBody type) name

/-- A type, given how to read the types inside it. -/
def typeBody (self : Unit → Reader TypeExpr) (_ : Unit) : Reader TypeExpr := do
  let _ ← annotations
  if ← atKind .primitive then
    let name ← expect .primitive .type
    pure ⟨name, [], ← dims⟩
  else
    let first ← identifier .type
    let (name, args) ← typeSegments (self ()) first
    pure ⟨name, args, ← dims⟩

/-- A type. -/
def type : Reader TypeExpr := recurse typeBody ()

/-- Types with a comma between each two, at least one. -/
def typeList : Reader (List TypeExpr) := separated .comma type

/-- The types behind a word, none if the word does not stand next. -/
def typesAfter (word : TokenKind) : Reader (List TypeExpr) := do
  if ← accept word then typeList else pure []

/-! ### Parameters -/

/-- A type parameter. -/
def typeParameter : Reader (TypeParameter TypeExpr) := do
  let _ ← annotations
  let name ← identifier .typeParameterName
  if ← accept .extendsWord then pure ⟨name, ← separated .ampersand type⟩
  else pure ⟨name, []⟩

/-- The type parameters that stand next, if any. -/
def typeParameters : Reader (List (TypeParameter TypeExpr)) := do
  if ← accept .less then
    let params ← separated .comma typeParameter
    let _ ← expect .greater .typeParametersEnd
    pure params
  else pure []

/-- Whether the lexeme `n` places further on is the word `this`. -/
def isThisAt (ls : List Lexeme) (n : Nat) : Bool :=
  match ls[n]? with
  | some l => l.kind = .reserved && l.text = "this"
  | none => false

/-- The number of lexemes that name the receiver, if that stands next in place of a name. -/
def receiverLength? (ls : List Lexeme) : Option Nat :=
  if isThisAt ls 0 then some 1
  else if kindAt ls 0 = some .identifier && kindAt ls 1 = some .dot && isThisAt ls 2 then some 3
  else none

/-- A parameter, or nothing for the receiver. -/
def parameter : Reader (Option Written.Parameter) := do
  let d ← decorations
  let t ← type
  let _ ← annotations
  let isVarargs ← accept .ellipsis
  match receiverLength? (← lookAhead) with
  | some n => do
    skip n
    pure none
  | none => do
    let name ← identifier .parameterName
    let extra ← dims
    pure (some { name := some name, type := t.addDims extra, modifiers := d.modifiers,
                 annotations := d.annotations, isVarargs })

/-- A parameter list with its parentheses. -/
def parameters : Reader (List Written.Parameter) := do
  let _ ← expect .leftParen .parametersOpening
  if ← accept .rightParen then pure []
  else
    let params ← separated .comma parameter
    let _ ← expect .rightParen .parametersEnd
    pure (params.filterMap id)

end JavaModel.Grammar
