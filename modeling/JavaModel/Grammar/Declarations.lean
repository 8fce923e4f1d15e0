import JavaModel.DocText
import JavaModel.Grammar.Types

/-!
Type declarations and their members, told as events. A member's documentation comment and events are
told when the member has been read to its end; a class begins once its head has been read.
-/

namespace JavaModel.Grammar

open Reader Lexeme

/-- What stands before a declaration, with the comment and the line it begins with. -/
structure Opening where
  decorations : Decorations
  doc : Option String
  line : Nat
deriving Repr, Inhabited

/-- The documentation comment, the line, and the modifiers and annotations that stand next. -/
def opening : Reader Opening := do
  let doc ← docHere
  let line ← lineHere
  let d ← decorations
  pure ⟨d, doc, line⟩

/-- Tells a documentation comment, if there is one. -/
def tellDoc (doc : Option String) (target : DocTarget) : Reader Unit :=
  match doc with
  | some text => tell (.doc (DocText.clean text) target)
  | none => pure ()

/-- The kind of the type declaration that stands next, its modifiers being passed. -/
def declarationKind? (ls : List Lexeme) : Option ClassKind :=
  match kindAt ls 0 with
  | some .classWord => some .plainClass
  | some .interfaceWord => some .interfaceType
  | some .enumWord => some .enumType
  | some .atSign => if kindAt ls 1 = some .interfaceWord then some .annotationType else none
  | _ =>
    if isWordAt ls 0 "record" && kindAt ls 1 = some .identifier
        && (kindAt ls 2 = some .leftParen || kindAt ls 2 = some .less) then some .recordType
    else none

/-- The number of lexemes that say the kind of a type declaration. -/
def kindLength : ClassKind → Nat
  | .annotationType => 2
  | _ => 1

/-! ### Fields and methods -/

/-- Tells a field with its comment. -/
def tellField (doc : Option String) (f : Written.Field) : Reader Unit := do
  tellDoc doc (.onField f.name)
  tell (.beginField f)
  tell .endField

/-- Tells a method or a constructor with its comment. -/
def tellMethod (doc : Option String) (m : Written.Method) : Reader Unit := do
  tellDoc doc (if m.isConstructor then .onConstructor m.name else .onMethod m.name)
  tell (.beginMethod m)
  tell .endMethod

/-- One declarator of a field and those behind it, given the name that it declares. The comment, the
modifiers and the annotations count for each. -/
def declaratorsBody (o : Opening) (t : TypeExpr) (self : String → Reader Unit) (name : String) :
    Reader Unit := do
  let extra ← dims
  let initializer ← (do if ← accept .equals then pure (some (← expression)) else pure none)
  tellField o.doc
    { name, modifiers := o.decorations.modifiers, annotations := o.decorations.annotations,
      type := t.addDims extra, initializer, isEnumConstant := false, line := o.line }
  if ← accept .comma then self (← identifier .fieldName)
  else
    let _ ← expect .semicolon .fieldEnd
    pure ()

/-- The declarators of a field from the first name on. -/
def declarators (o : Opening) (t : TypeExpr) (name : String) : Reader Unit :=
  recurse (declaratorsBody o t) name

/-- A method or a constructor from its parameters on. Brackets behind the parameters belong to the
type returned. -/
def methodRest (o : Opening) (typeParams : List (TypeParameter TypeExpr))
    (returnType : Option TypeExpr) (name : String) : Reader Unit := do
  let params ← parameters
  let extra ← dims
  let throwing ← typesAfter .throwsWord
  let defaultValue ←
    (do if ← accept (.modifier .isDefault) then pure (some (← expression)) else pure none)
  let body ← (do
    if ← atKind .leftBrace then pure (some (← enclosed .brace))
    else
      let _ ← expect .semicolon .methodEnd
      pure none)
  tellMethod o.doc
    { name, modifiers := o.decorations.modifiers, annotations := o.decorations.annotations,
      typeParameters := typeParams, returnType := returnType.map (·.addDims extra),
      parameters := params, throwing, body, defaultValue, line := o.line }

/-! ### Enum constants -/

/-- The modifiers that a constant of an enum has. -/
def constantModifiers : List Modifier := [.isPublic, .isStatic, .isFinal]

/-- One constant of an enum and those behind it. -/
def constantsBody (enum : String) (self : Unit → Reader Unit) (_ : Unit) : Reader Unit := do
  match kindAt (← lookAhead) 0 with
  | some .semicolon => skip 1
  | some .rightBrace | none => pure ()
  | _ => do
    let doc ← docHere
    let line ← lineHere
    let notes ← annotations
    let name ← identifier .enumConstant
    let initializer ←
      (do if ← atKind .leftParen then pure (some (← enclosed .paren)) else pure none)
    if ← atKind .leftBrace then
      let _ ← enclosed .brace
    tellField doc
      { name, modifiers := constantModifiers, annotations := notes, type := .simple enum,
        initializer, isEnumConstant := true, line }
    if ← accept .comma then self ()
    else
      match kindAt (← lookAhead) 0 with
      | some .semicolon => skip 1
      | some .rightBrace => pure ()
      | _ => fail .enumConstantEnd

/-- The constants of an enum, up to the semicolon behind them or to the end of the body. -/
def constants (enum : String) : Reader Unit := recurse (constantsBody enum) ()

/-! ### Records -/

/-- The private field that a component of a record stands for. -/
def componentField (line : Nat) (p : Written.Parameter) (name : String) : Written.Field :=
  { name, modifiers := [.isPrivate, .isFinal], annotations := p.annotations, type := p.type,
    initializer := none, isEnumConstant := false, line }

/-- Tells the fields of a record's components. -/
def tellComponents (line : Nat) : List Written.Parameter → Reader Unit
  | [] => pure ()
  | p :: ps => do
    match p.name with
    | some name => tellField none (componentField line p name)
    | none => pure ()
    tellComponents line ps

/-- The constructor that takes the components of a record. -/
def canonicalConstructor (line : Nat) (record : String) (components : List Written.Parameter) :
    Written.Method :=
  { name := record, modifiers := [.isPublic], annotations := [], typeParameters := [],
    returnType := none, parameters := components, throwing := [], body := none,
    defaultValue := none, line }

/-! ### Classes -/

/-- How to read a type declaration whose kind is known and still stands next. -/
abbrev ReadClass := ClassKind × Opening → Reader Unit

/-- A member of a class other than an initializer block. -/
def member (readClass : ReadClass) (owner : ClassKind) (className : String) : Reader Unit := do
  let o ← opening
  match declarationKind? (← lookAhead) with
  | some kind => readClass (kind, o)
  | none => do
    let typeParams ← typeParameters
    let ls ← lookAhead
    if isWordAt ls 0 className && kindAt ls 1 = some .leftParen then
      skip 1
      methodRest o typeParams none className
    else if isWordAt ls 0 className && kindAt ls 1 = some .leftBrace && owner = .recordType then
      -- A record's constructor without a parameter list repeats the one told for its components.
      skip 1
      let _ ← enclosed .brace
    else
      let t ← type
      let name ← identifier .memberName
      if ← atKind .leftParen then methodRest o typeParams (some t) name
      else declarators o t name

/-- One member of a class body and those behind it. -/
def membersBody (readClass : ReadClass) (owner : ClassKind) (className : String)
    (self : Unit → Reader Unit) (_ : Unit) : Reader Unit := do
  let ls ← lookAhead
  match kindAt ls 0 with
  | none => fail .classEnd
  | some .rightBrace => skip 1
  | some .semicolon => do
    skip 1
    self ()
  | some .leftBrace => do
    let _ ← enclosed .brace
    self ()
  | some k => do
    if k = .modifier .isStatic && kindAt ls 1 = some .leftBrace then
      skip 1
      let _ ← enclosed .brace
    else member readClass owner className
    self ()

/-- The body of a class with its braces. -/
def classBody (readClass : ReadClass) (kind : ClassKind) (name : String) : Reader Unit := do
  let _ ← expect .leftBrace .classOpening
  if kind = .enumType then constants name
  recurse (membersBody readClass kind name) ()

/-- The types that a class or an interface extends. -/
def extendedTypes : ClassKind → Reader (List TypeExpr)
  | .plainClass => do if ← accept .extendsWord then pure [← type] else pure []
  | .interfaceType => typesAfter .extendsWord
  | _ => pure []

/-- The types that a class permits to extend it. -/
def permittedTypes : Reader (List TypeExpr) := do
  if isWordAt (← lookAhead) 0 "permits" then
    skip 1
    typeList
  else pure []

/-- A type declaration, given how to read those nested in it. -/
def classBodyOf (self : ReadClass) (start : ClassKind × Opening) : Reader Unit := do
  let (kind, o) := start
  skip (kindLength kind)
  let name ← identifier .typeName
  let typeParams ← typeParameters
  let components ← (if kind = .recordType then parameters else pure [])
  let extending ← extendedTypes kind
  let implementing ← typesAfter .implementsWord
  let permitting ← permittedTypes
  tellDoc o.doc (.onClass name)
  tell (.beginClass
    { kind, name, modifiers := o.decorations.modifiers, annotations := o.decorations.annotations,
      typeParameters := typeParams, extending, implementing, permitting, line := o.line })
  if kind = .recordType then
    tellComponents o.line components
    tellMethod none (canonicalConstructor o.line name components)
  classBody self kind name
  tell .endClass

/-- A type declaration whose kind is known and still stands next. -/
def classDeclaration : ReadClass := recurse classBodyOf

/-- A type declaration with its modifiers. -/
def typeDeclaration : Reader Unit := do
  let o ← opening
  match declarationKind? (← lookAhead) with
  | some kind => classDeclaration (kind, o)
  | none => fail .declaration

end JavaModel.Grammar
