import Mathlib.Data.List.Forall2
import JavaModel.Model.Assembly

/-! What declarations become in a class model. A reference keeps the written form of its type, and
each name in it has the origin that its place gives it. `Field.Holds`, `Method.Holds` and
`Class.Holds` say that a part of the model holds a declaration, up to a relation `R` between types
as written and references; what is made of a declaration holds it, with what the scope makes of
each type for `R`. -/

namespace JavaModel

/-! ### References -/

mutual

/-- The type that a reference stands for, as it was written. -/
def TypeRef.written : TypeRef → TypeExpr
  | ⟨name, args, dims, _⟩ => ⟨name, TypeRef.writtenArgs args, dims⟩

/-- Type arguments as they were written. -/
def TypeRef.writtenArgs : List (Argument TypeRef) → List (Argument TypeExpr)
  | [] => []
  | a :: as => TypeRef.writtenArg a :: TypeRef.writtenArgs as

/-- A type argument as it was written. -/
def TypeRef.writtenArg : Argument TypeRef → Argument TypeExpr
  | .exactly t => .exactly t.written
  | .unbounded => .unbounded
  | .extending t => .extending t.written
  | .above t => .above t.written

end

mutual

/-- The names in a type at any depth, in the order of `TypeRef.spread`. -/
def TypeExpr.names : TypeExpr → List String
  | ⟨name, args, _⟩ => name :: TypeExpr.namesArgs args

/-- The names in type arguments. -/
def TypeExpr.namesArgs : List (Argument TypeExpr) → List String
  | [] => []
  | a :: as => TypeExpr.namesArgs as ++ TypeExpr.namesArg a

/-- The names in a type argument. -/
def TypeExpr.namesArg : Argument TypeExpr → List String
  | .exactly t | .extending t | .above t => t.names
  | .unbounded => []

end

mutual

/-- The names in a reference are those of the type that it stands for. -/
theorem TypeRef.names_written (r : TypeRef) : r.written.names = r.spread.map (·.name) := by
  obtain ⟨name, args, dims, origin⟩ := r
  exact congrArg (name :: ·) (TypeRef.names_writtenArgs args)

theorem TypeRef.names_writtenArgs (as : List (Argument TypeRef)) :
    TypeExpr.namesArgs (TypeRef.writtenArgs as) = (TypeRef.spreadArgs as).map (·.name) := by
  cases as with
  | nil => rfl
  | cons a as =>
    exact (congrArg₂ (· ++ ·) (TypeRef.names_writtenArgs as) (TypeRef.names_writtenArg a)).trans
      List.map_append.symm

theorem TypeRef.names_writtenArg (a : Argument TypeRef) :
    TypeExpr.namesArg (TypeRef.writtenArg a) = (TypeRef.spreadArg a).map (·.name) := by
  cases a with
  | unbounded => rfl
  | exactly t | extending t | above t => exact TypeRef.names_written t

end

namespace Assembly

/-- The origin that a scope gives to a written name. -/
inductive Scope.Gives (s : Scope) (name : String) : TypeOrigin → Prop
  | primitive : Name.isPrimitive name → s.Gives name .qualified
  | typeVariable : ¬ Name.isPrimitive name → name ∈ s.typeParameters → s.Gives name .typeVariable
  | written (n : Nat) : ¬ Name.isPrimitive name → name ∉ s.typeParameters →
      s.Gives name (.written ⟨s.source, n⟩ s.context)

/-- A reference is what a scope makes of a written type. -/
structure Scope.Refers (s : Scope) (t : TypeExpr) (r : TypeRef) : Prop where
  written : r.written = t
  origin : ∀ q ∈ r.spread, s.Gives q.name q.origin

variable {s : Scope}

theorem gives_originOf (s : Scope) (name : String) (n : Nat) :
    s.Gives name ((originOf s name).run n).1 := by
  unfold originOf
  split
  · exact .primitive ‹_›
  · split
    · exact .typeVariable ‹_› (List.contains_iff_mem.mp ‹_›)
    · exact .written n ‹_› fun h => ‹¬ _› (List.contains_iff_mem.mpr h)

mutual

theorem refer_refers (s : Scope) (t : TypeExpr) (n : Nat) : s.Refers t ((refer s t).run n).1 := by
  obtain ⟨name, args, dims⟩ := t
  have horigin := gives_originOf s name n
  obtain ⟨hwritten, hargs⟩ := referArgs_refers s args ((originOf s name).run n).2
  refine ⟨?_, ?_⟩
  · exact congrArg (fun args => (⟨name, args, dims⟩ : TypeExpr)) hwritten
  · intro q hq
    rcases List.mem_cons.mp hq with rfl | hq
    · exact horigin
    · exact hargs q hq

theorem referArgs_refers (s : Scope) (as : List (Argument TypeExpr)) (n : Nat) :
    TypeRef.writtenArgs ((referArgs s as).run n).1 = as ∧
      ∀ q ∈ TypeRef.spreadArgs ((referArgs s as).run n).1, s.Gives q.name q.origin := by
  cases as with
  | nil => exact ⟨rfl, fun q hq => by cases hq⟩
  | cons a as =>
    obtain ⟨hfirst, hfirsts⟩ := referArg_refers s a n
    obtain ⟨hrest, hrests⟩ := referArgs_refers s as ((referArg s a).run n).2
    refine ⟨?_, fun q hq => ?_⟩
    · exact congrArg₂ List.cons hfirst hrest
    · rcases List.mem_append.mp hq with hq | hq
      · exact hrests q hq
      · exact hfirsts q hq

theorem referArg_refers (s : Scope) (a : Argument TypeExpr) (n : Nat) :
    TypeRef.writtenArg ((referArg s a).run n).1 = a ∧
      ∀ q ∈ TypeRef.spreadArg ((referArg s a).run n).1, s.Gives q.name q.origin := by
  cases a with
  | unbounded => exact ⟨rfl, fun q hq => by cases hq⟩
  | exactly t =>
    obtain ⟨hwritten, horigin⟩ := refer_refers s t n
    exact ⟨congrArg Argument.exactly hwritten, horigin⟩
  | extending t =>
    obtain ⟨hwritten, horigin⟩ := refer_refers s t n
    exact ⟨congrArg Argument.extending hwritten, horigin⟩
  | above t =>
    obtain ⟨hwritten, horigin⟩ := refer_refers s t n
    exact ⟨congrArg Argument.above hwritten, horigin⟩

end

end Assembly

/-! ### Declarations -/

section Holds

variable (R : TypeExpr → TypeRef → Prop)

/-- An annotation of the model is the written one. -/
structure AnnotationUse.Holds (w : AnnotationUse String) (a : AnnotationUse TypeRef) : Prop where
  type : R (.simple w.type) a.type
  args : a.args = w.args

/-- A type parameter of the model is the written one. -/
structure TypeParameter.Holds (w : TypeParameter TypeExpr) (p : TypeParameter TypeRef) : Prop where
  name : p.name = w.name
  bounds : List.Forall₂ R w.bounds p.bounds

/-- A parameter of the model is the written one. -/
structure Parameter.Holds (w : Written.Parameter) (p : Parameter) : Prop where
  name : p.name = w.name
  type : R w.type p.type
  modifiers : p.modifiers = .ofList w.modifiers
  annotations : List.Forall₂ (AnnotationUse.Holds R) w.annotations p.annotations
  isVarargs : p.isVarargs = w.isVarargs

/-- A field of the model is the written one. -/
structure Field.Holds (w : Written.Field) (f : Field) : Prop where
  name : f.name = w.name
  modifiers : f.modifiers = .ofList w.modifiers
  type : R w.type f.type
  initializer : f.initializer = w.initializer
  isEnumConstant : f.isEnumConstant = w.isEnumConstant
  annotations : List.Forall₂ (AnnotationUse.Holds R) w.annotations f.annotations
  line : f.line = w.line

/-- A method or a constructor of the model is the written one. -/
structure Method.Holds (w : Written.Method) (m : Method) : Prop where
  name : m.name = w.name
  modifiers : m.modifiers = .ofList w.modifiers
  typeParameters : List.Forall₂ (TypeParameter.Holds R) w.typeParameters m.typeParameters
  returnType : List.Forall₂ R w.returnType.toList m.returnType.toList
  parameters : List.Forall₂ (Parameter.Holds R) w.parameters m.parameters
  throwing : List.Forall₂ R w.throwing m.throwing
  body : m.body = w.body
  defaultValue : m.defaultValue = w.defaultValue
  annotations : List.Forall₂ (AnnotationUse.Holds R) w.annotations m.annotations
  line : m.line = w.line

/-- A class of the model is the written one, apart from its members. An interface lists what it
extends before what it implements; any other class extends the first class listed. -/
structure Class.Holds (w : Written.Class) (c : Class) : Prop where
  name : c.name = w.name
  kind : c.kind = w.kind
  modifiers : c.modifiers = .ofList w.modifiers
  typeParameters : List.Forall₂ (TypeParameter.Holds R) w.typeParameters c.typeParameters
  superclass : List.Forall₂ R (if w.kind = .interfaceType then [] else w.extending.take 1)
    c.superclass.toList
  interfaces : List.Forall₂ R
    (if w.kind = .interfaceType then w.extending ++ w.implementing else w.implementing) c.interfaces
  permitting : List.Forall₂ R w.permitting c.permitting
  annotations : List.Forall₂ (AnnotationUse.Holds R) w.annotations c.annotations
  line : c.line = w.line

end Holds

section Mono

variable {R S : TypeExpr → TypeRef → Prop} (hRS : ∀ t r, R t r → S t r)

include hRS

theorem AnnotationUse.Holds.mono {w : AnnotationUse String} {a : AnnotationUse TypeRef}
    (h : AnnotationUse.Holds R w a) : AnnotationUse.Holds S w a := ⟨hRS _ _ h.type, h.args⟩

theorem TypeParameter.Holds.mono {w : TypeParameter TypeExpr} {p : TypeParameter TypeRef}
    (h : TypeParameter.Holds R w p) : TypeParameter.Holds S w p :=
  ⟨h.name, h.bounds.imp hRS⟩

theorem Parameter.Holds.mono {w : Written.Parameter} {p : Parameter} (h : p.Holds R w) :
    p.Holds S w :=
  ⟨h.name, hRS _ _ h.type, h.modifiers, h.annotations.imp fun _ _ => AnnotationUse.Holds.mono hRS,
    h.isVarargs⟩

theorem Field.Holds.mono {w : Written.Field} {f : Field} (h : f.Holds R w) : f.Holds S w :=
  ⟨h.name, h.modifiers, hRS _ _ h.type, h.initializer, h.isEnumConstant,
    h.annotations.imp fun _ _ => AnnotationUse.Holds.mono hRS, h.line⟩

theorem Method.Holds.mono {w : Written.Method} {m : Method} (h : m.Holds R w) : m.Holds S w :=
  ⟨h.name, h.modifiers, h.typeParameters.imp fun _ _ => TypeParameter.Holds.mono hRS,
    h.returnType.imp hRS, h.parameters.imp fun _ _ => Parameter.Holds.mono hRS,
    h.throwing.imp hRS, h.body, h.defaultValue,
    h.annotations.imp fun _ _ => AnnotationUse.Holds.mono hRS, h.line⟩

theorem Class.Holds.mono {w : Written.Class} {c : Class} (h : c.Holds R w) : c.Holds S w :=
  ⟨h.name, h.kind, h.modifiers, h.typeParameters.imp fun _ _ => TypeParameter.Holds.mono hRS,
    h.superclass.imp hRS, h.interfaces.imp hRS, h.permitting.imp hRS,
    h.annotations.imp fun _ _ => AnnotationUse.Holds.mono hRS, h.line⟩

end Mono

/-! ### Types in declarations -/

/-- The types that annotations name. -/
def annotationTypes (as : List (AnnotationUse String)) : List TypeExpr :=
  as.map fun a => .simple a.type

/-- The bounds of type parameters. -/
def boundTypes (ps : List (TypeParameter TypeExpr)) : List TypeExpr := ps.flatMap (·.bounds)

namespace Written

/-- The types that are written in a parameter. -/
def Parameter.types (p : Written.Parameter) : List TypeExpr :=
  annotationTypes p.annotations ++ [p.type]

/-- The types that are written in a field. -/
def Field.types (f : Written.Field) : List TypeExpr := annotationTypes f.annotations ++ [f.type]

/-- The types that are written in a method. -/
def Method.types (m : Written.Method) : List TypeExpr :=
  annotationTypes m.annotations ++ boundTypes m.typeParameters ++ m.returnType.toList ++
    m.parameters.flatMap (·.types) ++ m.throwing

/-- The types that are written in the head of a class. -/
def Class.types (c : Written.Class) : List TypeExpr :=
  annotationTypes c.annotations ++ boundTypes c.typeParameters ++ c.extending ++
    c.implementing ++ c.permitting

end Written

section References

variable {R : TypeExpr → TypeRef → Prop} {r : SitedRef}

/-- A member of the second of two related lists is related to one of the first. -/
theorem exists_of_forall₂ {α β : Type} {P : α → β → Prop} {as : List α} {bs : List β}
    (h : List.Forall₂ P as bs) {b : β} (hb : b ∈ bs) : ∃ a ∈ as, P a b := by
  induction h with
  | nil => cases hb
  | cons hab _ ih =>
    rcases List.mem_cons.mp hb with rfl | hb
    · exact ⟨_, List.mem_cons_self .., hab⟩
    · obtain ⟨a, ha, hab⟩ := ih hb
      exact ⟨a, List.mem_cons_of_mem _ ha, hab⟩

/-- Every reference of a list of annotations stands for a written type. -/
theorem AnnotationUse.Holds.refs {ws : List (AnnotationUse String)}
    {as : List (AnnotationUse TypeRef)} (h : List.Forall₂ (AnnotationUse.Holds R) ws as)
    {element : String} {line : Nat} (hr : r ∈ SitedRef.ofAnnotations element line as) :
    ∃ t ∈ annotationTypes ws, R t r.ref := by
  obtain ⟨a, ha, rfl⟩ := List.mem_map.mp hr
  obtain ⟨w, hw, ht⟩ := exists_of_forall₂ h ha
  exact ⟨_, List.mem_map_of_mem hw, ht.type⟩

theorem TypeParameter.Holds.refs {ws : List (TypeParameter TypeExpr)}
    {ps : List (TypeParameter TypeRef)} (h : List.Forall₂ (TypeParameter.Holds R) ws ps)
    {line : Nat} (hr : r ∈ SitedRef.ofBounds line ps) : ∃ t ∈ boundTypes ws, R t r.ref := by
  obtain ⟨p, hp, hr⟩ := List.mem_flatMap.mp hr
  obtain ⟨w, hw, hwp⟩ := exists_of_forall₂ h hp
  obtain ⟨b, hb, rfl⟩ := List.mem_map.mp hr
  obtain ⟨t, ht, htb⟩ := exists_of_forall₂ hwp.bounds hb
  exact ⟨t, List.mem_flatMap.mpr ⟨w, hw, ht⟩, htb⟩

/-- References listed with a place and a line. -/
theorem refs_of_map {ts : List TypeExpr} {rs : List TypeRef} (h : List.Forall₂ R ts rs)
    {site : TypeSite} {line : Nat} (hr : r ∈ rs.map fun q => (⟨site, line, q⟩ : SitedRef)) :
    ∃ t ∈ ts, R t r.ref := by
  obtain ⟨q, hq, rfl⟩ := List.mem_map.mp hr
  exact exists_of_forall₂ h hq

theorem Parameter.Holds.refs {w : Written.Parameter} {p : Parameter} (h : p.Holds R w)
    {method : String} {line : Nat} (hr : r ∈ SitedRef.ofParameter method line p) :
    ∃ t ∈ w.types, R t r.ref := by
  rcases List.mem_append.mp hr with hr | hr
  · obtain ⟨t, ht, hR⟩ := AnnotationUse.Holds.refs h.annotations hr
    exact ⟨t, List.mem_append_left _ ht, hR⟩
  · obtain rfl := List.mem_singleton.mp hr
    exact ⟨_, List.mem_append_right _ (List.mem_singleton_self _), h.type⟩

theorem Field.Holds.refs {w : Written.Field} {f : Field} (h : Field.Holds R w f)
    (hr : r ∈ SitedRef.ofField f) : ∃ t ∈ w.types, R t r.ref := by
  rcases List.mem_append.mp hr with hr | hr
  · obtain ⟨t, ht, hR⟩ := AnnotationUse.Holds.refs h.annotations hr
    exact ⟨t, List.mem_append_left _ ht, hR⟩
  · obtain rfl := List.mem_singleton.mp hr
    exact ⟨_, List.mem_append_right _ (List.mem_singleton_self _), h.type⟩

theorem Method.Holds.refs {w : Written.Method} {m : Method} (h : Method.Holds R w m)
    (hr : r ∈ SitedRef.ofMethod m) : ∃ t ∈ w.types, R t r.ref := by
  simp only [SitedRef.ofMethod, List.mem_append] at hr
  simp only [Written.Method.types, List.mem_append]
  rcases hr with (((hr | hr) | hr) | hr) | hr
  · obtain ⟨t, ht, hR⟩ := AnnotationUse.Holds.refs h.annotations hr
    exact ⟨t, .inl (.inl (.inl (.inl ht))), hR⟩
  · obtain ⟨t, ht, hR⟩ := TypeParameter.Holds.refs h.typeParameters hr
    exact ⟨t, .inl (.inl (.inl (.inr ht))), hR⟩
  · obtain ⟨t, ht, hR⟩ := refs_of_map h.returnType hr
    exact ⟨t, .inl (.inl (.inr ht)), hR⟩
  · obtain ⟨p, hp, hr⟩ := List.mem_flatMap.mp hr
    obtain ⟨w, hw, hwp⟩ := exists_of_forall₂ h.parameters hp
    obtain ⟨t, ht, hR⟩ := hwp.refs hr
    exact ⟨t, .inl (.inr (List.mem_flatMap.mpr ⟨w, hw, ht⟩)), hR⟩
  · obtain ⟨t, ht, hR⟩ := refs_of_map h.throwing hr
    exact ⟨t, .inr ht, hR⟩

/-- Every reference of a class stands for a type written in its head, or is one of a member. -/
theorem Class.Holds.refs {w : Written.Class} {c : Class} (h : Class.Holds R w c)
    (hr : r ∈ c.typeRefs) : (∃ t ∈ w.types, R t r.ref) ∨
      (∃ f ∈ c.fields, r ∈ SitedRef.ofField f) ∨
      ∃ m ∈ c.constructors ++ c.methods, r ∈ SitedRef.ofMethod m := by
  -- A class extends only some of the types that are written behind the word.
  have hextending {ts : List TypeExpr} (hts : ts ⊆ w.extending ++ w.implementing)
      {t : TypeExpr} (ht : t ∈ ts) : t ∈ w.types := by
    have := hts ht
    simp only [Written.Class.types, List.mem_append] at this ⊢
    tauto
  simp only [Class.typeRefs, List.mem_append] at hr
  rcases hr with (((((hr | hr) | hr) | hr) | hr) | hr) | hr
  · obtain ⟨t, ht, hR⟩ := AnnotationUse.Holds.refs h.annotations hr
    exact .inl ⟨t, by simp [Written.Class.types, ht], hR⟩
  · obtain ⟨t, ht, hR⟩ := TypeParameter.Holds.refs h.typeParameters hr
    exact .inl ⟨t, by simp [Written.Class.types, ht], hR⟩
  · obtain ⟨t, ht, hR⟩ := refs_of_map h.superclass hr
    refine .inl ⟨t, hextending ?_ ht, hR⟩
    split
    · exact List.nil_subset _
    · exact List.subset_append_of_subset_left _ (List.take_subset 1 _)
  · obtain ⟨t, ht, hR⟩ := refs_of_map h.interfaces hr
    refine .inl ⟨t, hextending ?_ ht, hR⟩
    split
    · exact List.Subset.refl _
    · exact List.subset_append_right _ _
  · obtain ⟨t, ht, hR⟩ := refs_of_map h.permitting hr
    exact .inl ⟨t, by simp [Written.Class.types, ht], hR⟩
  · obtain ⟨f, hf, hr⟩ := List.mem_flatMap.mp hr
    exact .inr (.inl ⟨f, hf, hr⟩)
  · obtain ⟨m, hm, hr⟩ := List.mem_flatMap.mp hr
    exact .inr (.inr ⟨m, hm, hr⟩)

end References

namespace Assembly

variable {s : Scope} {n : Nat}

/-- What is made of the members of a list one after the other is made of each. -/
theorem forall₂_mapM {α β : Type} {P : α → β → Prop} {f : α → StateM Nat β}
    (h : ∀ a n, P a ((f a).run n).1) (as : List α) (n : Nat) :
    List.Forall₂ P as ((as.mapM f).run n).1 := by
  induction as generalizing n with
  | nil => exact .nil
  | cons a as ih =>
    rw [List.mapM_cons]
    exact .cons (h a n) (ih _)

theorem referAll_refers (s : Scope) (ts : List TypeExpr) (n : Nat) :
    List.Forall₂ s.Refers ts ((referAll s ts).run n).1 := forall₂_mapM (refer_refers s) ts n

theorem referAnnotations_holds (s : Scope) (as : List (AnnotationUse String)) (n : Nat) :
    List.Forall₂ (AnnotationUse.Holds s.Refers) as ((referAnnotations s as).run n).1 :=
  forall₂_mapM (fun a n => ⟨refer_refers s (.simple a.type) n, rfl⟩) as n

theorem referTypeParameters_holds (s : Scope) (ps : List (TypeParameter TypeExpr)) (n : Nat) :
    List.Forall₂ (TypeParameter.Holds s.Refers) ps ((referTypeParameters s ps).run n).1 :=
  forall₂_mapM (fun p n => ⟨rfl, referAll_refers s p.bounds n⟩) ps n

theorem referParameter_holds (s : Scope) (p : Written.Parameter) (n : Nat) :
    Parameter.Holds s.Refers p ((referParameter s p).run n).1 :=
  ⟨rfl, refer_refers s p.type n, rfl, referAnnotations_holds s p.annotations _, rfl⟩

theorem referField_holds (s : Scope) (declaredIn : String) (doc : Option String)
    (f : Written.Field) (n : Nat) :
    Field.Holds s.Refers f ((referField s declaredIn doc f).run n).1 :=
  ⟨rfl, rfl, refer_refers s f.type n, rfl, rfl, referAnnotations_holds s f.annotations _, rfl⟩

theorem refer_mapM (s : Scope) (t : Option TypeExpr) (n : Nat) :
    List.Forall₂ s.Refers t.toList ((t.mapM (refer s)).run n).1.toList := by
  cases t with
  | none => exact .nil
  | some t => exact .cons (refer_refers s t n) .nil

theorem referMethod_holds (s : Scope) (declaredIn : String) (doc : Option String)
    (m : Written.Method) (n : Nat) :
    Method.Holds s.Refers m ((referMethod s declaredIn doc m).run n).1 :=
  ⟨rfl, rfl, referTypeParameters_holds s m.typeParameters n, refer_mapM s m.returnType _,
    forall₂_mapM (referParameter_holds s) m.parameters _, referAll_refers s m.throwing _, rfl, rfl,
    referAnnotations_holds s m.annotations _, rfl⟩

theorem referClass_holds (s : Scope) (id : ClassId) (enclosing : Option ClassIndex)
    (fullName : String) (package doc : Option String) (c : Written.Class) (n : Nat) :
    Class.Holds s.Refers c ((referClass s id enclosing fullName package doc c).run n).1 := by
  let listed := if c.kind = .interfaceType then c.extending else c.extending.take 1
  have hextended := referAll_refers s listed n
  have himplemented := referAll_refers s c.implementing ((referAll s listed).run n).2
  refine ⟨rfl, rfl, rfl, referTypeParameters_holds s c.typeParameters _, ?_, ?_,
    referAll_refers s c.permitting _, referAnnotations_holds s c.annotations _, rfl⟩
  · change List.Forall₂ _ _ (if c.kind = .interfaceType then none else
      ((referAll s listed).run n).1.head?).toList
    by_cases hkind : c.kind = .interfaceType
    · simp only [if_pos hkind]
      exact .nil
    · have hfirst : List.Forall₂ s.Refers (listed.take 1)
          ((referAll s listed).run n).1.head?.toList :=
        List.take_one ▸ List.forall₂_take 1 hextended
      simpa only [listed, if_neg hkind, List.take_take, Nat.min_self] using hfirst
  · change List.Forall₂ _ _ (if c.kind = .interfaceType then
      ((referAll s listed).run n).1 ++
        ((referAll s c.implementing).run ((referAll s listed).run n).2).1
      else ((referAll s c.implementing).run ((referAll s listed).run n).2).1)
    by_cases hkind : c.kind = .interfaceType
    · simp only [listed, if_pos hkind] at hextended himplemented ⊢
      exact List.rel_append hextended himplemented
    · simp only [if_neg hkind]
      exact himplemented

end Assembly

end JavaModel
