import JavaModel.Grammar.Declarations

/-! The readers of declarations as parts that are read one behind the other. What stands behind a
choice is named, so that it is looked at once and not in each of the branches. -/

namespace JavaModel

namespace Reader

variable {α β : Type}

theorem bind_assoc {γ : Type} (p : Reader α) (f : α → Reader β) (g : β → Reader γ) :
    (p >>= f) >>= g = p >>= fun a => f a >>= g := by
  funext ls
  show andThen (andThen p f) g ls = andThen p (fun a => andThen (f a) g) ls
  unfold andThen
  match p ls with
  | (told, .error m) => rfl
  | (told, .ok (a, rest)) =>
    match hrun : f a rest with
    | (more, .error m) => simp [hrun]
    | (more, .ok (b, rest')) => simp [hrun, List.append_assoc]

theorem pure_bind (a : α) (f : α → Reader β) : pure a >>= f = f a := by
  funext ls
  show andThen (succeed a) f ls = f a ls
  simp [andThen, succeed]

theorem ite_bind {c : Prop} [Decidable c] (p q : Reader α) (f : α → Reader β) :
    (if c then p else q) >>= f = if c then p >>= f else q >>= f := by
  split <;> rfl

end Reader

namespace Grammar

open Reader Lexeme

/-! ### Parameters -/

/-- What follows the type of a parameter: its name, or the receiver in place of one. -/
def parameterName (d : Decorations) (t : TypeExpr) (isVarargs : Bool) :
    Reader (Option Written.Parameter) := do
  match receiverLength? (← lookAhead) with
  | some n => do
    skip n
    pure none
  | none => do
    let name ← identifier .parameterName
    let extra ← dims
    pure (some { name := some name, type := t.addDims extra, modifiers := d.modifiers,
                 annotations := d.annotations, isVarargs })

theorem parameter_eq : parameter = decorations >>= fun d => type >>= fun t => annotations >>=
    fun _ => accept .ellipsis >>= fun isVarargs => parameterName d t isVarargs := rfl

/-! ### Members -/

/-- What follows the modifiers and the type parameters of a member that is no type declaration. -/
def memberTail (owner : ClassKind) (className : String) (o : Opening)
    (typeParams : List (TypeParameter TypeExpr)) : Reader Unit := do
  let ls ← lookAhead
  if isWordAt ls 0 className && kindAt ls 1 = some .leftParen then
    skip 1
    methodRest o typeParams none className
  else if isWordAt ls 0 className && kindAt ls 1 = some .leftBrace &&
      owner = .recordType then
    skip 1
    let _ ← enclosed .brace
  else
    let t ← type
    let name ← identifier .memberName
    if ← atKind .leftParen then methodRest o typeParams (some t) name
    else declarators o t name

/-- What follows the modifiers of a member that is no type declaration. -/
def memberRest (owner : ClassKind) (className : String) (o : Opening) : Reader Unit :=
  typeParameters >>= memberTail owner className o

theorem member_eq (readClass : ReadClass) (owner : ClassKind) (className : String) :
    member readClass owner className = opening >>= fun o => lookAhead >>= fun ls =>
      match declarationKind? ls with
      | some kind => readClass (kind, o)
      | none => memberRest owner className o := rfl

/-! ### Enum constants -/

/-- One constant of an enum and what comes next. -/
def constantThen (enum : String) (next : Reader Unit) : Reader Unit := do
  let doc ← docHere
  let line ← lineHere
  let notes ← annotations
  let name ← identifier .enumConstant
  let initializer ←
    (do if ← atKind .leftParen then pure (some (← enclosed .paren)) else pure none)
  if ← atKind .leftBrace then
    let _ ← enclosed .brace
  tellField doc
    { name, modifiers := constantModifiers, annotations := notes, type := .simple enum,
      initializer, isEnumConstant := true, line }
  next

theorem constantThen_eq (enum : String) (next : Reader Unit) :
    constantThen enum next = constantThen enum (pure ()) >>= fun _ => next := by
  simp only [constantThen, bind_assoc, ite_bind]
  rfl

/-- What follows a constant. -/
def constantEnd (self : Unit → Reader Unit) : Reader Unit := do
  if ← accept .comma then self ()
  else
    match kindAt (← lookAhead) 0 with
    | some .semicolon => skip 1
    | some .rightBrace => pure ()
    | _ => fail .enumConstantEnd

theorem constantsBody_eq (enum : String) (self : Unit → Reader Unit) :
    constantsBody enum self () = lookAhead >>= fun ls =>
      match kindAt ls 0 with
      | some .semicolon => skip 1
      | some .rightBrace | none => pure ()
      | _ => constantThen enum (constantEnd self) := rfl

/-! ### Classes -/

theorem membersBody_eq (readClass : ReadClass) (owner : ClassKind) (className : String)
    (self : Unit → Reader Unit) :
    membersBody readClass owner className self () = lookAhead >>= fun ls =>
      match kindAt ls 0 with
      | none => fail .classEnd
      | some .rightBrace => skip 1
      | some .semicolon => skip 1 >>= fun _ => self ()
      | some .leftBrace => enclosed .brace >>= fun _ => self ()
      | some k =>
        if k = .modifier .isStatic && kindAt ls 1 = some .leftBrace then
          skip 1 >>= fun _ => enclosed .brace >>= fun _ => self ()
        else member readClass owner className >>= fun _ => self () := rfl

/-- The head of a class from its kind to the brace that opens its body. -/
def classOpening (kind : ClassKind) (o : Opening) : Reader String := do
  skip (kindLength kind)
  let name ← identifier .typeName
  let typeParams ← typeParameters
  let components ← (if kind = .recordType then parameters else pure [])
  let extending ← extendedTypes kind
  let implementing ← typesAfter .implementsWord
  let permitting ← permittedTypes
  tellDoc o.doc (.onClass name)
  tell (.beginClass
    { kind, name, modifiers := o.decorations.modifiers, annotations := o.decorations.annotations,
      typeParameters := typeParams, extending, implementing, permitting, line := o.line })
  if kind = .recordType then
    tellComponents o.line components
    tellMethod none (canonicalConstructor o.line name components)
  let _ ← expect .leftBrace .classOpening
  pure name

/-- The constants at the beginning of a class body, which only an enum has. -/
def constantsOf (kind : ClassKind) (name : String) : Reader Unit :=
  if kind = .enumType then constants name else pure ()

theorem classBodyOf_eq (self : ReadClass) (kind : ClassKind) (o : Opening) :
    classBodyOf self (kind, o) = classOpening kind o >>= fun name => constantsOf kind name >>=
      fun _ => recurse (membersBody self kind name) () >>= fun _ => tell .endClass := by
  unfold classBodyOf classOpening constantsOf classBody
  cases kind <;> simp only [bind_assoc, pure_bind, reduceCtorEq, if_false, if_true]

end Grammar

end JavaModel
