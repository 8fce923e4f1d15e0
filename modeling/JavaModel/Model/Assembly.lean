import JavaModel.Event
import JavaModel.Model.SourceUnit

/-!
A source unit put together from events, one event at a time. Every type written in a class becomes a
reference that remembers the innermost class open there; nothing is looked up meanwhile, so the
order of declarations does not matter. Events need not be well nested.
-/

namespace JavaModel

/-- A source unit in the making. -/
structure Assembly where
  unit : SourceUnit
  /-- The classes whose ends have not been told, innermost first. -/
  stack : List ClassIndex
  /-- The type parameters in scope, a frame for each open class or method, innermost first. -/
  typeScopes : List (List String)
  /-- The last documentation comment that no declaration has taken. -/
  pendingDoc : Option (String × DocTarget)
  /-- The number of slots given out. -/
  slots : Nat
deriving Repr, Inhabited

namespace Assembly

/-- A unit of which nothing has been told. -/
def start (id : UnitId) (path : FilePath) : Assembly :=
  { unit :=
      { id, path, package := none, packageDoc := none, packageAnnotations := [], imports := [],
        classes := [], topLevel := [] },
    stack := [], typeScopes := [], pendingDoc := none, slots := 0 }

/-- What written types mean at a place: the unit, the innermost class, and the type parameters of
the classes and the method around it. -/
structure Scope where
  source : UnitId
  context : Option ClassIndex
  typeParameters : List String
deriving Repr, Inhabited

/-- The assembly while the head of a declaration with type parameters of its own is read. -/
def inside (a : Assembly) (own : List String) : Assembly :=
  { a with typeScopes := own :: a.typeScopes }

/-- The scope behind the events so far. -/
def scope (a : Assembly) : Scope :=
  { source := a.unit.id, context := a.stack.head?, typeParameters := a.typeScopes.flatten }

/-! ### References

Each conversion numbers the slots it gives out from the count in its state. -/

/-- The number of the next slot. -/
def nextSlot : StateM Nat Nat := modifyGet fun n => (n, n + 1)

/-- The origin of a written name: primitive types and type variables mean themselves. -/
def originOf (s : Scope) (name : String) : StateM Nat TypeOrigin :=
  if Name.isPrimitive name then pure .qualified
  else if s.typeParameters.contains name then pure .typeVariable
  else do pure (.written ⟨s.source, ← nextSlot⟩ s.context)

mutual

/-- The reference that a written type makes. -/
def refer (s : Scope) : TypeExpr → StateM Nat TypeRef
  | ⟨name, args, dims⟩ => do
    let origin ← originOf s name
    let args ← referArgs s args
    pure ⟨name, args, dims, origin⟩

/-- The references that written type arguments make. -/
def referArgs (s : Scope) : List (Argument TypeExpr) → StateM Nat (List (Argument TypeRef))
  | [] => pure []
  | a :: as => do
    let a ← referArg s a
    let as ← referArgs s as
    pure (a :: as)

/-- The reference that a written type argument makes. -/
def referArg (s : Scope) : Argument TypeExpr → StateM Nat (Argument TypeRef)
  | .exactly t => do pure (.exactly (← refer s t))
  | .unbounded => pure .unbounded
  | .extending t => do pure (.extending (← refer s t))
  | .above t => do pure (.above (← refer s t))

end

def referAll (s : Scope) (ts : List TypeExpr) : StateM Nat (List TypeRef) := ts.mapM (refer s)

def referAnnotations (s : Scope) (as : List (AnnotationUse String)) :
    StateM Nat (List (AnnotationUse TypeRef)) :=
  as.mapM fun a => do pure ⟨← refer s (.simple a.type), a.args⟩

def referTypeParameters (s : Scope) (ps : List (TypeParameter TypeExpr)) :
    StateM Nat (List (TypeParameter TypeRef)) :=
  ps.mapM fun p => do pure ⟨p.name, ← referAll s p.bounds⟩

def referParameter (s : Scope) (p : Written.Parameter) : StateM Nat Parameter := do
  let type ← refer s p.type
  let annotations ← referAnnotations s p.annotations
  pure { name := p.name, type, modifiers := .ofList p.modifiers, annotations,
         isVarargs := p.isVarargs }

/-- A field of a class. -/
def referField (s : Scope) (declaredIn : String) (doc : Option String) (f : Written.Field) :
    StateM Nat Field := do
  let type ← refer s f.type
  let annotations ← referAnnotations s f.annotations
  pure { name := f.name, modifiers := .ofList f.modifiers, type, initializer := f.initializer,
         isEnumConstant := f.isEnumConstant, annotations, doc, line := f.line, declaredIn }

/-- A method or a constructor of a class. -/
def referMethod (s : Scope) (declaredIn : String) (doc : Option String) (m : Written.Method) :
    StateM Nat Method := do
  let typeParameters ← referTypeParameters s m.typeParameters
  let returnType ← m.returnType.mapM (refer s)
  let parameters ← m.parameters.mapM (referParameter s)
  let throwing ← referAll s m.throwing
  let annotations ← referAnnotations s m.annotations
  pure { name := m.name, modifiers := .ofList m.modifiers, typeParameters, returnType, parameters,
         throwing, body := m.body, defaultValue := m.defaultValue, annotations, doc,
         line := m.line, declaredIn }

/-- A class without its members. Interfaces extend interfaces; any other class extends the first
class listed. -/
def referClass (s : Scope) (id : ClassId) (enclosing : Option ClassIndex) (fullName : String)
    (package : Option String) (doc : Option String) (c : Written.Class) : StateM Nat Class := do
  let isInterface := c.kind = .interfaceType
  let extended ← referAll s (if isInterface then c.extending else c.extending.take 1)
  let implemented ← referAll s c.implementing
  let typeParameters ← referTypeParameters s c.typeParameters
  let permitting ← referAll s c.permitting
  let annotations ← referAnnotations s c.annotations
  pure { name := c.name, fullName, package, kind := c.kind, modifiers := .ofList c.modifiers,
         typeParameters, superclass := if isInterface then none else extended.head?,
         interfaces := if isInterface then extended ++ implemented else implemented, permitting,
         fields := [], methods := [], constructors := [], nested := [], enclosing, annotations,
         doc, line := c.line, origin := .declared id }

/-! ### Events -/

/-- The pending comment, if it belongs to the declaration that begins. -/
def docFor (a : Assembly) (target : DocTarget) : Option String :=
  match a.pendingDoc with
  | some (text, pending) => if pending = target then some text else none
  | none => none

/-- The innermost open class. -/
def current? (a : Assembly) : Option Class := a.stack.head?.bind a.unit.classAt?

/-- Changes the class at a place. -/
def modifyClass (u : SourceUnit) (i : ClassIndex) (f : Class → Class) : SourceUnit :=
  { u with classes := u.classes.modify i.number f }

/-- Begins a class inside the innermost open one. The class is open while the types of its head are
read. -/
def beginClass (a : Assembly) (c : Written.Class) : Assembly :=
  let index : ClassIndex := ⟨a.unit.classes.length⟩
  let enclosing := a.stack.head?
  let fullName := match a.current? with
    | some outer => outer.fullName ++ "." ++ c.name
    | none => Name.join a.unit.package c.name
  let doc := a.docFor (.onClass c.name)
  let opened : Assembly :=
    { a.inside (c.typeParameters.map TypeParameter.name) with
      stack := index :: a.stack, pendingDoc := none }
  let (made, slots) :=
    (referClass opened.scope ⟨a.unit.id, index⟩ enclosing fullName a.unit.package doc c).run
      a.slots
  let unit := { a.unit with classes := a.unit.classes ++ [made] }
  let unit := match enclosing with
    | some outer => modifyClass unit outer fun o => { o with nested := o.nested ++ [index] }
    | none => { unit with topLevel := unit.topLevel ++ [index] }
  { opened with unit, slots }

/-- Adds a field to the innermost open class; outside all classes it is lost. -/
def addField (a : Assembly) (f : Written.Field) : Assembly :=
  let doc := a.docFor (.onField f.name)
  let a := { a with pendingDoc := none }
  match a.stack.head?, a.current? with
  | some i, some owner =>
    let (made, slots) := (referField a.scope owner.fullName doc f).run a.slots
    { a with unit := modifyClass a.unit i fun c => { c with fields := c.fields ++ [made] },
             slots }
  | _, _ => a

/-- Adds a method or a constructor to the innermost open class; outside all classes it is lost. Its
own type parameters are in scope while its types are read. -/
def addMethod (a : Assembly) (m : Written.Method) : Assembly :=
  let doc := a.docFor (if m.isConstructor then .onConstructor m.name else .onMethod m.name)
  let a := { a with pendingDoc := none }
  match a.stack.head?, a.current? with
  | some i, some owner =>
    let own := m.typeParameters.map TypeParameter.name
    let (made, slots) := (referMethod (a.inside own).scope owner.fullName doc m).run a.slots
    let add (c : Class) : Class :=
      if made.isConstructor then { c with constructors := c.constructors ++ [made] }
      else { c with methods := c.methods ++ [made] }
    { a with unit := modifyClass a.unit i add, slots }
  | _, _ => a

/-- Takes the package; of several the last counts. -/
def setPackage (a : Assembly) (p : Written.Package) : Assembly :=
  let (made, slots) := (referAnnotations a.scope p.annotations).run a.slots
  { a with
    unit := { a.unit with package := some p.name, packageDoc := a.docFor .onPackage,
                          packageAnnotations := made },
    pendingDoc := none, slots }

/-- The assembly behind one more event. -/
def step (a : Assembly) : Event → Assembly
  | .beginSource | .endField | .endMethod => a
  | .package p => a.setPackage p
  | .imports i => { a with unit := { a.unit with imports := a.unit.imports ++ [i] } }
  | .doc text target => { a with pendingDoc := some (text, target) }
  | .beginClass c => a.beginClass c
  | .endClass => { a with stack := a.stack.tail, typeScopes := a.typeScopes.tail }
  | .beginField f => a.addField f
  | .beginMethod m => a.addMethod m
  | .endSource => { a with pendingDoc := none }

end Assembly

/-- The unit that events tell. -/
def SourceUnit.ofEvents (id : UnitId) (path : FilePath) (es : List Event) : SourceUnit :=
  (es.foldl Assembly.step (Assembly.start id path)).unit

end JavaModel
