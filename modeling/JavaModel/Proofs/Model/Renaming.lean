import Mathlib.Logic.Embedding.Basic
import JavaModel.Library.Registry
import JavaModel.Proofs.Model.Arena
import JavaModel.Resolution

/-! Units under other ids. The id of a unit only goes into the ids of its classes and the slots of
its references. So a text read under another id gives the same unit but for those, and what a name
means in a unit does not depend on the unit's id. -/

namespace JavaModel

/-- Other ids for units, distinct ones for distinct units. -/
abbrev Renaming := UnitId ↪ UnitId

/-- Ids from `first` on are moved up by `n`, and those before stay. -/
def Renaming.shift (first n : Nat) : Renaming where
  toFun id := if id.number < first then id else ⟨id.number + n⟩
  inj' := by
    rintro ⟨i⟩ ⟨j⟩ h
    grind

theorem Renaming.shift_next (first n k : Nat) : shift first n ⟨first + k⟩ = ⟨first + n + k⟩ := by
  have hlater : ¬ first + k < first := by omega
  change (if first + k < first then _ else _) = _
  rw [if_neg hlater, UnitId.mk.injEq]
  change first + k + n = first + n + k
  omega

variable (ρ : Renaming)

def ClassId.rename (id : ClassId) : ClassId := ⟨ρ id.source, id.index⟩

def Slot.rename (s : Slot) : Slot := ⟨ρ s.source, s.number⟩

def TypeOrigin.rename : TypeOrigin → TypeOrigin
  | .written slot context => .written (slot.rename ρ) context
  | .qualified => .qualified
  | .typeVariable => .typeVariable

mutual

def TypeRef.rename : TypeRef → TypeRef
  | ⟨name, args, dims, origin⟩ => ⟨name, TypeRef.renameArgs args, dims, origin.rename ρ⟩

def TypeRef.renameArgs : List (Argument TypeRef) → List (Argument TypeRef)
  | [] => []
  | a :: as => TypeRef.renameArg a :: TypeRef.renameArgs as

def TypeRef.renameArg : Argument TypeRef → Argument TypeRef
  | .exactly t => .exactly t.rename
  | .unbounded => .unbounded
  | .extending t => .extending t.rename
  | .above t => .above t.rename

end

def AnnotationUse.rename (a : AnnotationUse TypeRef) : AnnotationUse TypeRef :=
  ⟨a.type.rename ρ, a.args⟩

def TypeParameter.rename (p : TypeParameter TypeRef) : TypeParameter TypeRef :=
  ⟨p.name, p.bounds.map (TypeRef.rename ρ)⟩

def Parameter.rename (p : Parameter) : Parameter :=
  { p with type := p.type.rename ρ, annotations := p.annotations.map (AnnotationUse.rename ρ) }

def Field.rename (f : Field) : Field :=
  { f with type := f.type.rename ρ, annotations := f.annotations.map (AnnotationUse.rename ρ) }

def Method.rename (m : Method) : Method :=
  { m with
    typeParameters := m.typeParameters.map (TypeParameter.rename ρ),
    returnType := m.returnType.map (TypeRef.rename ρ),
    parameters := m.parameters.map (Parameter.rename ρ),
    throwing := m.throwing.map (TypeRef.rename ρ),
    annotations := m.annotations.map (AnnotationUse.rename ρ) }

def ClassOrigin.rename : ClassOrigin → ClassOrigin
  | .declared id => .declared (id.rename ρ)
  | .registered => .registered
  | .stub => .stub

/-- The class with the ids in it renamed. All else is as it was. -/
def Class.rename (c : Class) : Class :=
  { c with
    typeParameters := c.typeParameters.map (TypeParameter.rename ρ),
    superclass := c.superclass.map (TypeRef.rename ρ),
    interfaces := c.interfaces.map (TypeRef.rename ρ),
    permitting := c.permitting.map (TypeRef.rename ρ),
    fields := c.fields.map (Field.rename ρ),
    methods := c.methods.map (Method.rename ρ),
    constructors := c.constructors.map (Method.rename ρ),
    annotations := c.annotations.map (AnnotationUse.rename ρ),
    origin := c.origin.rename ρ }

/-- The unit under its other id. -/
def SourceUnit.rename (u : SourceUnit) : SourceUnit :=
  { u with
    id := ρ u.id,
    packageAnnotations := u.packageAnnotations.map (AnnotationUse.rename ρ),
    classes := u.classes.map (Class.rename ρ) }

@[simp] theorem TypeRef.name_rename (r : TypeRef) : (r.rename ρ).name = r.name := by
  cases r
  rfl

@[simp] theorem TypeRef.dims_rename (r : TypeRef) : (r.rename ρ).dims = r.dims := by
  cases r
  rfl

@[simp] theorem TypeRef.origin_rename (r : TypeRef) :
    (r.rename ρ).origin = r.origin.rename ρ := by
  cases r
  rfl

@[simp] theorem SourceUnit.id_rename (u : SourceUnit) : (u.rename ρ).id = ρ u.id := rfl

@[simp] theorem SourceUnit.classes_rename (u : SourceUnit) :
    (u.rename ρ).classes = u.classes.map (Class.rename ρ) := rfl

@[simp] theorem Class.fullName_rename (c : Class) : (c.rename ρ).fullName = c.fullName := rfl

@[simp] theorem ClassId.source_rename (id : ClassId) : (id.rename ρ).source = ρ id.source := rfl

@[simp] theorem Slot.source_rename (s : Slot) : (s.rename ρ).source = ρ s.source := rfl

@[simp] theorem ClassId.rename_inj {i j : ClassId} : i.rename ρ = j.rename ρ ↔ i = j := by
  obtain ⟨s, n⟩ := i
  obtain ⟨t, m⟩ := j
  simp [rename]

@[simp] theorem Slot.rename_inj {a b : Slot} : a.rename ρ = b.rename ρ ↔ a = b := by
  obtain ⟨s, n⟩ := a
  obtain ⟨t, m⟩ := b
  simp [rename]

@[simp] theorem Class.id?_rename (c : Class) : (c.rename ρ).id? = c.id?.map (ClassId.rename ρ) := by
  rcases c with ⟨⟩
  rename_i origin
  cases origin <;> rfl

/-! ### Classes of a unit -/

namespace SourceUnit

variable (u : SourceUnit)

theorem classAt?_rename (i : ClassIndex) :
    (u.rename ρ).classAt? i = (u.classAt? i).map (Class.rename ρ) := List.getElem?_map

theorem class?_rename (id : ClassId) :
    (u.rename ρ).class? (id.rename ρ) = (u.class? id).map (Class.rename ρ) := by
  unfold class?
  simp only [id_rename, ClassId.source_rename, EmbeddingLike.apply_eq_iff_eq]
  split
  · exact classAt?_rename ρ u id.index
  · rfl

end SourceUnit

namespace Class

theorem withField_rename (f : Field) (c : Class) :
    Class.withField (f.rename ρ) (c.rename ρ) = (c.withField f).rename ρ := by
  simp only [Class.withField, Class.rename, List.map_append, List.map_singleton]

theorem withMethod_rename (m : Method) (c : Class) :
    Class.withMethod (m.rename ρ) (c.rename ρ) = (c.withMethod m).rename ρ := by
  have hkind : (m.rename ρ).isConstructor = m.isConstructor := Option.isNone_map
  unfold Class.withMethod
  rw [hkind]
  split <;> simp only [Class.rename, List.map_append, List.map_singleton]

end Class

/-! ### Reading -/

namespace Assembly

def Scope.rename (s : Scope) : Scope := { s with source := ρ s.source }

/-- The assembly of the same unit under its other id. -/
def rename (a : Assembly) : Assembly := { a with unit := a.unit.rename ρ }

theorem originOf_rename (s : Scope) (name : String) :
    originOf (s.rename ρ) name = TypeOrigin.rename ρ <$> originOf s name := by
  have hparameters : (s.rename ρ).typeParameters = s.typeParameters := rfl
  unfold originOf
  rw [hparameters]
  split
  · rfl
  · split <;> rfl

mutual

theorem refer_rename (s : Scope) (t : TypeExpr) :
    refer (s.rename ρ) t = TypeRef.rename ρ <$> refer s t := by
  obtain ⟨name, args, dims⟩ := t
  simp only [refer, originOf_rename ρ s name, referArgs_rename s args, map_bind, bind_map_left,
    map_pure, TypeRef.rename]

theorem referArgs_rename (s : Scope) (as : List (Argument TypeExpr)) :
    referArgs (s.rename ρ) as = TypeRef.renameArgs ρ <$> referArgs s as := by
  cases as with
  | nil => rfl
  | cons a as =>
    simp only [referArgs, referArg_rename s a, referArgs_rename s as, map_bind, bind_map_left,
      map_pure, TypeRef.renameArgs]

theorem referArg_rename (s : Scope) (a : Argument TypeExpr) :
    referArg (s.rename ρ) a = TypeRef.renameArg ρ <$> referArg s a := by
  cases a with
  | unbounded => rfl
  | exactly t | extending t | above t =>
    simp only [referArg, refer_rename s t, map_bind, bind_map_left, map_pure, TypeRef.renameArg]

end

/-- What is made of each element, renamed, is what is made of all, renamed. -/
theorem mapM_rename {α β γ : Type} {f : α → StateM Nat β} {f' : α → StateM Nat γ} {g : β → γ}
    (h : ∀ a, f' a = g <$> f a) (as : List α) : as.mapM f' = List.map g <$> as.mapM f := by
  induction as with
  | nil => rfl
  | cons a as ih =>
    simp only [List.mapM_cons, h, ih, map_bind, bind_map_left, map_pure, List.map_cons]

theorem referAll_rename (s : Scope) (ts : List TypeExpr) :
    referAll (s.rename ρ) ts = List.map (TypeRef.rename ρ) <$> referAll s ts :=
  mapM_rename (refer_rename ρ s) ts

theorem referAnnotations_rename (s : Scope) (as : List (AnnotationUse String)) :
    referAnnotations (s.rename ρ) as =
      List.map (AnnotationUse.rename ρ) <$> referAnnotations s as := by
  refine mapM_rename (fun a => ?_) as
  simp only [refer_rename, map_bind, bind_map_left, map_pure, AnnotationUse.rename]

theorem referTypeParameters_rename (s : Scope) (ps : List (TypeParameter TypeExpr)) :
    referTypeParameters (s.rename ρ) ps =
      List.map (TypeParameter.rename ρ) <$> referTypeParameters s ps := by
  refine mapM_rename (fun p => ?_) ps
  simp only [referAll_rename, map_bind, bind_map_left, map_pure, TypeParameter.rename]

theorem referParameter_rename (s : Scope) (p : Written.Parameter) :
    referParameter (s.rename ρ) p = Parameter.rename ρ <$> referParameter s p := by
  simp only [referParameter, refer_rename, referAnnotations_rename, map_bind, bind_map_left,
    map_pure, Parameter.rename]

theorem referField_rename (s : Scope) (declaredIn : String) (doc : Option String)
    (f : Written.Field) :
    referField (s.rename ρ) declaredIn doc f = Field.rename ρ <$> referField s declaredIn doc f := by
  simp only [referField, refer_rename, referAnnotations_rename, map_bind, bind_map_left, map_pure,
    Field.rename]

theorem referReturned_rename (s : Scope) (t : Option TypeExpr) :
    t.mapM (refer (s.rename ρ)) = Option.map (TypeRef.rename ρ) <$> t.mapM (refer s) := by
  cases t with
  | none => rfl
  | some t => simp only [Option.mapM_some, refer_rename, Functor.map_map, Option.map_some]

theorem referMethod_rename (s : Scope) (declaredIn : String) (doc : Option String)
    (m : Written.Method) :
    referMethod (s.rename ρ) declaredIn doc m =
      Method.rename ρ <$> referMethod s declaredIn doc m := by
  simp only [referMethod, referTypeParameters_rename, referReturned_rename, referAll_rename,
    referAnnotations_rename, mapM_rename (referParameter_rename ρ s), map_bind, bind_map_left,
    map_pure, Method.rename]

theorem referClass_rename (s : Scope) (id : ClassId) (enclosing : Option ClassIndex)
    (fullName : String) (package doc : Option String) (c : Written.Class) :
    referClass (s.rename ρ) (id.rename ρ) enclosing fullName package doc c =
      Class.rename ρ <$> referClass s id enclosing fullName package doc c := by
  simp only [referClass, referAll_rename, referTypeParameters_rename, referAnnotations_rename,
    map_bind, bind_map_left, map_pure, Class.rename, ClassOrigin.rename, List.map_nil,
    List.head?_map]
  split <;> simp

/-! ### Events -/

variable (a : Assembly)

theorem current?_rename : (a.rename ρ).current? = a.current?.map (Class.rename ρ) := by
  unfold current?
  change a.stack.head?.bind (a.unit.rename ρ).classAt? = _
  cases a.stack.head? with
  | none => rfl
  | some i => exact SourceUnit.classAt?_rename ρ a.unit i

/-- A change of the class at a place, made before the renaming or after it. -/
theorem modifyClass_rename (u : SourceUnit) (i : ClassIndex) {f f' : Class → Class}
    (h : ∀ c, f' (c.rename ρ) = (f c).rename ρ) :
    modifyClass (u.rename ρ) i f' = (modifyClass u i f).rename ρ := by
  have hclasses : (u.classes.map (Class.rename ρ)).modify i.number f' =
      (u.classes.modify i.number f).map (Class.rename ρ) := by
    refine List.ext_getElem? fun n => ?_
    simp only [List.getElem?_modify, List.getElem?_map]
    cases u.classes[n]? with
    | none => rfl
    | some c => by_cases hn : i.number = n <;> simp [hn, h]
  simp only [modifyClass, SourceUnit.rename, hclasses]

theorem nextFullName_rename (name : String) :
    (a.rename ρ).nextFullName name = a.nextFullName name := by
  unfold nextFullName
  rw [current?_rename]
  cases a.current? <;> rfl

/-- A class placed behind the others, before the renaming or after it. -/
theorem hang_rename (u : SourceUnit) (c : Class) :
    (u.rename ρ).hang (c.rename ρ) = (u.hang c).rename ρ := by
  have hlength : (u.rename ρ).classes.length = u.classes.length := List.length_map ..
  have hgrown : ({ u.rename ρ with classes := (u.rename ρ).classes ++ [c.rename ρ] } : SourceUnit) =
      SourceUnit.rename ρ { u with classes := u.classes ++ [c] } := by
    simp [SourceUnit.rename]
  cases henclosing : c.enclosing with
  | none =>
    rw [SourceUnit.hang_none henclosing, SourceUnit.hang_none (c := c.rename ρ) henclosing, hlength]
    simp only [SourceUnit.rename, List.map_append, List.map_singleton]
  | some outer =>
    rw [SourceUnit.hang_some henclosing, SourceUnit.hang_some (c := c.rename ρ) henclosing, hlength,
      hgrown]
    exact modifyClass_rename ρ _ outer fun _ => rfl

/-- What makes the class that begins now. -/
def making (a : Assembly) (c : Written.Class) : StateM Nat Class :=
  let index : ClassIndex := ⟨a.unit.classes.length⟩
  referClass ⟨a.unit.id, some index,
      c.typeParameters.map TypeParameter.name ++ a.typeScopes.flatten⟩
    ⟨a.unit.id, index⟩ a.innermost (a.nextFullName c.name) a.unit.package
    (a.docFor (.onClass c.name)) c

theorem beginClass_eq (c : Written.Class) : a.beginClass c =
    { unit := a.unit.hang ((a.making c).run a.slots).1, pendingDoc := none,
      slots := ((a.making c).run a.slots).2, stack := ⟨a.unit.classes.length⟩ :: a.stack,
      typeScopes := c.typeParameters.map TypeParameter.name :: a.typeScopes } := rfl

theorem making_rename (c : Written.Class) :
    (a.rename ρ).making c = Class.rename ρ <$> a.making c := by
  have hlength : (a.rename ρ).unit.classes.length = a.unit.classes.length := List.length_map ..
  unfold making
  rw [nextFullName_rename, hlength]
  exact referClass_rename ρ ⟨a.unit.id, some ⟨a.unit.classes.length⟩, _⟩
    ⟨a.unit.id, ⟨a.unit.classes.length⟩⟩ a.innermost _ a.unit.package _ c

theorem beginClass_rename (c : Written.Class) :
    (a.rename ρ).beginClass c = (a.beginClass c).rename ρ := by
  have hlength : (a.rename ρ).unit.classes.length = a.unit.classes.length := List.length_map ..
  have hhang := hang_rename ρ a.unit ((a.making c).run a.slots).1
  rw [beginClass_eq, beginClass_eq, making_rename, hlength]
  simp only [rename, ← hhang]
  rfl

/-- What makes the field that begins now in a class. -/
def makingField (a : Assembly) (owner : Class) (f : Written.Field) : StateM Nat Field :=
  referField a.scope owner.fullName (a.docFor (.onField f.name)) f

/-- What makes the method or the constructor that begins now in a class. -/
def makingMethod (a : Assembly) (owner : Class) (m : Written.Method) : StateM Nat Method :=
  referMethod (a.inside (m.typeParameters.map TypeParameter.name)).scope owner.fullName
    (a.docFor (if m.isConstructor then .onConstructor m.name else .onMethod m.name)) m

theorem makingField_rename (owner : Class) (f : Written.Field) :
    (a.rename ρ).makingField (owner.rename ρ) f = Field.rename ρ <$> a.makingField owner f :=
  referField_rename ρ a.scope owner.fullName _ f

theorem makingMethod_rename (owner : Class) (m : Written.Method) :
    (a.rename ρ).makingMethod (owner.rename ρ) m = Method.rename ρ <$> a.makingMethod owner m :=
  referMethod_rename ρ (a.inside _).scope owner.fullName _ m

/-- Outside all classes, or inside the innermost open one. -/
theorem current_cases (a : Assembly) : a.current? = none ∨
    ∃ i owner, a.stack.head? = some i ∧ a.current? = some owner := by
  cases howner : a.current? with
  | none => exact .inl rfl
  | some owner =>
    obtain ⟨i, hi, _⟩ := Option.bind_eq_some_iff.mp howner
    exact .inr ⟨i, owner, hi, rfl⟩

variable {a} {i : ClassIndex} {owner : Class}

theorem addField_eq (hopened : a.stack.head? = some i) (howner : a.current? = some owner)
    (f : Written.Field) : a.addField f =
      { a with
        unit := modifyClass a.unit i (Class.withField ((a.makingField owner f).run a.slots).1),
        pendingDoc := none, slots := ((a.makingField owner f).run a.slots).2 } := by
  have hcurrent : ({ a with pendingDoc := none } : Assembly).current? = some owner := howner
  unfold addField
  dsimp only
  rw [hopened, hcurrent]
  rfl

theorem addMethod_eq (hopened : a.stack.head? = some i) (howner : a.current? = some owner)
    (m : Written.Method) : a.addMethod m =
      { a with
        unit :=
          modifyClass a.unit i (Class.withMethod ((a.makingMethod owner m).run a.slots).1),
        pendingDoc := none, slots := ((a.makingMethod owner m).run a.slots).2 } := by
  have hcurrent : ({ a with pendingDoc := none } : Assembly).current? = some owner := howner
  unfold addMethod
  dsimp only
  rw [hopened, hcurrent]
  rfl

theorem current?_rename_of_some (howner : a.current? = some owner) :
    (a.rename ρ).current? = some (owner.rename ρ) := by
  rw [current?_rename, howner]
  rfl

theorem current?_rename_of_none (houtside : a.current? = none) :
    (a.rename ρ).current? = none := by
  rw [current?_rename, houtside]
  rfl

theorem addField_rename (a : Assembly) (f : Written.Field) :
    (a.rename ρ).addField f = (a.addField f).rename ρ := by
  obtain houtside | ⟨i, owner, hopened, howner⟩ := a.current_cases
  · rw [addField_outside houtside, addField_outside (current?_rename_of_none ρ houtside)]
    rfl
  · have hopened' : (a.rename ρ).stack.head? = some i := hopened
    have hunit := modifyClass_rename ρ a.unit i
      (Class.withField_rename ρ ((a.makingField owner f).run a.slots).1)
    rw [addField_eq hopened howner, addField_eq hopened' (current?_rename_of_some ρ howner),
      makingField_rename]
    simp only [rename, ← hunit]
    rfl

theorem addMethod_rename (a : Assembly) (m : Written.Method) :
    (a.rename ρ).addMethod m = (a.addMethod m).rename ρ := by
  obtain houtside | ⟨i, owner, hopened, howner⟩ := a.current_cases
  · rw [addMethod_outside houtside, addMethod_outside (current?_rename_of_none ρ houtside)]
    rfl
  · have hopened' : (a.rename ρ).stack.head? = some i := hopened
    have hunit := modifyClass_rename ρ a.unit i
      (Class.withMethod_rename ρ ((a.makingMethod owner m).run a.slots).1)
    rw [addMethod_eq hopened howner, addMethod_eq hopened' (current?_rename_of_some ρ howner),
      makingMethod_rename]
    simp only [rename, ← hunit]
    rfl

theorem setPackage_rename (a : Assembly) (p : Written.Package) :
    (a.rename ρ).setPackage p = (a.setPackage p).rename ρ := by
  have hannotations : referAnnotations ((a.rename ρ).scope) p.annotations =
      List.map (AnnotationUse.rename ρ) <$> referAnnotations a.scope p.annotations :=
    referAnnotations_rename ρ a.scope p.annotations
  unfold setPackage
  rw [hannotations]
  rfl

theorem step_rename (a : Assembly) (e : Event) : (a.rename ρ).step e = (a.step e).rename ρ := by
  cases e with
  | package p => exact setPackage_rename ρ a p
  | beginClass c => exact beginClass_rename ρ a c
  | beginField f => exact addField_rename ρ a f
  | beginMethod m => exact addMethod_rename ρ a m
  | _ => rfl

end Assembly

namespace SourceUnit

/-- The unit that events tell under the other id. -/
theorem ofEvents_rename (id : UnitId) (path : FilePath) (es : List Event) :
    ofEvents (ρ id) path es = (ofEvents id path es).rename ρ := by
  have hfoldl : es.foldl Assembly.step ((Assembly.start id path).rename ρ) =
      (es.foldl Assembly.step (Assembly.start id path)).rename ρ :=
    List.foldl_hom (Assembly.rename ρ) (Assembly.step_rename ρ)
  exact congrArg Assembly.unit hfoldl

/-- A text read under the other id gives the renamed unit, or the same error. -/
theorem ofText_rename (id : UnitId) (path : FilePath) (text : String) :
    ofText (ρ id) path text = (ofText id path text).map (rename ρ) := by
  unfold ofText
  dsimp only
  split
  · rfl
  · rw [ofEvents_rename]
    rfl

theorem ofBytes_rename (id : UnitId) (path : FilePath) (bytes : ByteArray) :
    ofBytes (ρ id) path bytes = (ofBytes id path bytes).map (rename ρ) := by
  unfold ofBytes
  split
  · exact ofText_rename ρ id path _
  · rfl

theorem ofReader_rename (id : UnitId) (path : FilePath) (given : Except ReadFault ByteArray) :
    ofReader (ρ id) path given = (ofReader id path given).map (rename ρ) := by
  cases given with
  | ok bytes => exact ofBytes_rename ρ id path bytes
  | error fault => rfl

/-- The unit was read from some text. -/
def IsRead (u : SourceUnit) : Prop := ∃ path text, ofText u.id path text = .ok u

theorem isRead_ofText {id : UnitId} {path : FilePath} {text : String} {u : SourceUnit}
    (h : ofText id path text = .ok u) : u.IsRead :=
  ⟨path, text, by rw [(ofText_places h).1]; exact h⟩

theorem isRead_ofReader {id : UnitId} {path : FilePath} {given : Except ReadFault ByteArray}
    {u : SourceUnit} (h : ofReader id path given = .ok u) : u.IsRead := by
  cases given with
  | error fault => cases h
  | ok bytes =>
    simp only [ofReader, ofBytes] at h
    split at h
    · exact isRead_ofText h
    · cases h

/-- A unit that was read keeps everything when it keeps its id. -/
theorem IsRead.rename_eq {u : SourceUnit} (h : u.IsRead) (hid : ρ u.id = u.id) :
    u.rename ρ = u := by
  obtain ⟨path, text, hread⟩ := h
  have hrenamed := ofText_rename ρ u.id path text
  rw [hid, hread] at hrenamed
  exact (Except.ok.inj hrenamed).symm

/-! ### Names -/

variable (u : SourceUnit)

theorem topLevelClasses_rename :
    (u.rename ρ).topLevelClasses = u.topLevelClasses.map (Class.rename ρ) := by
  have hclassAt : (u.rename ρ).classAt? = fun i => (u.classAt? i).map (Class.rename ρ) :=
    funext (classAt?_rename ρ u)
  unfold topLevelClasses
  rw [hclassAt]
  exact (List.map_filterMap ..).symm

theorem nestedClasses_rename (c : Class) :
    (u.rename ρ).nestedClasses (c.rename ρ) = (u.nestedClasses c).map (Class.rename ρ) := by
  have hclassAt : (u.rename ρ).classAt? = fun i => (u.classAt? i).map (Class.rename ρ) :=
    funext (classAt?_rename ρ u)
  unfold nestedClasses
  rw [hclassAt]
  exact (List.map_filterMap ..).symm

theorem outward_rename (bound : Nat) (i : Option ClassIndex) :
    (u.rename ρ).outward bound i = (u.outward bound i).map (Class.rename ρ) := by
  induction bound generalizing i with
  | zero => rfl
  | succ bound ih =>
    cases i with
    | none => rfl
    | some i =>
      simp only [outward, classAt?_rename]
      cases u.classAt? i with
      | none => rfl
      | some c => exact congrArg (c.rename ρ :: ·) (ih c.enclosing)

/-- The class of a name among renamed ones has the full name that it has among the others. -/
theorem find?_rename (cs : List Class) (name : String) :
    ((cs.map (Class.rename ρ)).find? fun c => c.name = name).map (·.fullName) =
      (cs.find? fun c => c.name = name).map (·.fullName) := by
  rw [List.find?_map, Option.map_map]
  rfl

theorem inScope?_rename (context : Option ClassIndex) (name : String) :
    (u.rename ρ).inScope? context name = u.inScope? context name := by
  have hscope : (u.rename ρ).scopeFrom context = (u.scopeFrom context).map (Class.rename ρ) := by
    unfold scopeFrom
    rw [classes_rename, List.length_map]
    exact outward_rename ρ u _ context
  unfold inScope?
  rw [hscope, List.findSome?_map, topLevelClasses_rename, find?_rename]
  simp only [Function.comp_def, nestedClasses_rename, find?_rename]
  rfl

/-- What a name means in a unit does not depend on the unit's id. -/
theorem resolveName_rename {m : Type → Type} [Monad m] (around : Surroundings m)
    (context : Option ClassIndex) (name : String) :
    (u.rename ρ).resolveName around context name = u.resolveName around context name := by
  have hsimple (name : String) : (u.rename ρ).resolveSimple around context name =
      u.resolveSimple around context name := by
    unfold resolveSimple
    rw [inScope?_rename]
    rfl
  unfold resolveName
  simp only [hsimple]

end SourceUnit

/-! ### References of a class -/

def SitedRef.rename (r : SitedRef) : SitedRef := { r with ref := r.ref.rename ρ }

namespace SitedRef

theorem rename_mk (site : TypeSite) (line : Nat) (r : TypeRef) :
    rename ρ ⟨site, line, r⟩ = ⟨site, line, r.rename ρ⟩ := rfl

theorem ofAnnotations_rename (element : String) (line : Nat) (as : List (AnnotationUse TypeRef)) :
    ofAnnotations element line (as.map (AnnotationUse.rename ρ)) =
      (ofAnnotations element line as).map (rename ρ) := by
  simp [ofAnnotations, rename_mk, AnnotationUse.rename]

theorem ofBounds_rename (line : Nat) (ps : List (TypeParameter TypeRef)) :
    ofBounds line (ps.map (TypeParameter.rename ρ)) = (ofBounds line ps).map (rename ρ) := by
  simp [ofBounds, rename_mk, TypeParameter.rename, List.map_flatMap, List.flatMap_map,
    Function.comp_def]

theorem ofField_rename (f : Field) : ofField (f.rename ρ) = (ofField f).map (rename ρ) := by
  simp [ofField, Field.rename, ofAnnotations_rename, rename_mk]

theorem ofParameter_rename (method : String) (line : Nat) (p : Parameter) :
    ofParameter method line (p.rename ρ) = (ofParameter method line p).map (rename ρ) := by
  simp [ofParameter, Parameter.rename, ofAnnotations_rename, rename_mk]

theorem ofMethod_rename (m : Method) : ofMethod (m.rename ρ) = (ofMethod m).map (rename ρ) := by
  simp [ofMethod, Method.rename, ofAnnotations_rename, ofBounds_rename, ofParameter_rename,
    rename_mk, List.map_flatMap, List.flatMap_map, Option.toList_map, Function.comp_def]

end SitedRef

theorem Class.typeRefs_rename (c : Class) :
    (c.rename ρ).typeRefs = c.typeRefs.map (SitedRef.rename ρ) := by
  simp [typeRefs, Class.rename, SitedRef.ofAnnotations_rename, SitedRef.ofBounds_rename,
    SitedRef.ofField_rename, SitedRef.ofMethod_rename, SitedRef.rename_mk, List.map_flatMap,
    List.flatMap_map, Option.toList_map, Function.comp_def]

mutual

theorem TypeRef.spread_rename (t : TypeRef) :
    (t.rename ρ).spread = t.spread.map (TypeRef.rename ρ) := by
  obtain ⟨name, args, dims, origin⟩ := t
  simp only [TypeRef.rename, TypeRef.spread, List.map_cons, TypeRef.spreadArgs_rename args]

theorem TypeRef.spreadArgs_rename (as : List (Argument TypeRef)) :
    TypeRef.spreadArgs (TypeRef.renameArgs ρ as) =
      (TypeRef.spreadArgs as).map (TypeRef.rename ρ) := by
  cases as with
  | nil => rfl
  | cons a as =>
    simp only [TypeRef.renameArgs, TypeRef.spreadArgs, List.map_append,
      TypeRef.spreadArg_rename a, TypeRef.spreadArgs_rename as]

theorem TypeRef.spreadArg_rename (a : Argument TypeRef) :
    TypeRef.spreadArg (TypeRef.renameArg ρ a) = (TypeRef.spreadArg a).map (TypeRef.rename ρ) := by
  cases a with
  | unbounded => rfl
  | exactly t | extending t | above t =>
    simp only [TypeRef.renameArg, TypeRef.spreadArg, TypeRef.spread_rename t]

end

/-! ### Classes without a unit -/

theorem Class.stub_rename (name : String) : (Class.stub name).rename ρ = Class.stub name := rfl

theorem TypeRef.ofText_rename (text : String) :
    (TypeRef.ofText text).rename ρ = TypeRef.ofText text := rfl

namespace ClassShape

theorem parameter_rename (type : String) : (parameter type).rename ρ = parameter type := rfl

theorem field_rename (owner : String) (f : FieldShape) :
    (field owner f).rename ρ = field owner f := rfl

theorem method_rename (owner name : String) (m : MethodShape) :
    (method owner name m).rename ρ = method owner name m := by
  simp only [method, Method.rename, List.map_map, Option.map_map, Function.comp_def,
    TypeRef.ofText_rename, parameter_rename, List.map_nil]

theorem toClass_rename (s : ClassShape) : s.toClass.rename ρ = s.toClass := by
  simp only [toClass, Class.bare, Class.rename, ClassOrigin.rename, List.map_map, Option.map_map,
    Function.comp_def, TypeRef.ofText_rename, field_rename, method_rename, List.map_nil]

end ClassShape

/-! ### Keeping every id -/

theorem ClassId.rename_refl : ClassId.rename (.refl UnitId) = id := rfl

theorem Slot.rename_refl : Slot.rename (.refl UnitId) = id := rfl

theorem TypeOrigin.rename_refl : TypeOrigin.rename (.refl UnitId) = id := by
  funext o
  cases o <;> rfl

mutual

theorem TypeRef.rename_self (t : TypeRef) : t.rename (.refl UnitId) = t := by
  obtain ⟨name, args, dims, origin⟩ := t
  simp only [TypeRef.rename, TypeRef.renameArgs_self args, TypeOrigin.rename_refl, id]

theorem TypeRef.renameArgs_self (as : List (Argument TypeRef)) :
    TypeRef.renameArgs (.refl UnitId) as = as := by
  cases as with
  | nil => rfl
  | cons a as =>
    simp only [TypeRef.renameArgs, TypeRef.renameArg_self a, TypeRef.renameArgs_self as]

theorem TypeRef.renameArg_self (a : Argument TypeRef) :
    TypeRef.renameArg (.refl UnitId) a = a := by
  cases a with
  | unbounded => rfl
  | exactly t | extending t | above t => simp only [TypeRef.renameArg, TypeRef.rename_self t]

end

@[simp] theorem TypeRef.rename_refl : TypeRef.rename (.refl UnitId) = id :=
  funext TypeRef.rename_self

@[simp] theorem AnnotationUse.rename_refl : AnnotationUse.rename (.refl UnitId) = id := by
  funext a
  simp [rename]

@[simp] theorem TypeParameter.rename_refl : TypeParameter.rename (.refl UnitId) = id := by
  funext p
  simp [rename]

@[simp] theorem Parameter.rename_refl : Parameter.rename (.refl UnitId) = id := by
  funext p
  simp [rename]

@[simp] theorem Field.rename_refl : Field.rename (.refl UnitId) = id := by
  funext f
  simp [rename]

@[simp] theorem Method.rename_refl : Method.rename (.refl UnitId) = id := by
  funext m
  simp [rename]

@[simp] theorem Class.rename_refl : Class.rename (.refl UnitId) = id := by
  funext c
  rcases c with ⟨⟩
  rename_i origin
  cases origin <;> simp [rename, ClassOrigin.rename, ClassId.rename_refl]

@[simp] theorem SourceUnit.rename_refl : SourceUnit.rename (.refl UnitId) = fun u => u := by
  funext u
  simp [rename]

end JavaModel
