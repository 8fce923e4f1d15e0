import Mathlib.Data.List.Forall2
import Mathlib.Data.List.Nodup
import Mathlib.Data.Prod.Basic
import Mathlib.Data.Sum.Basic
import Mathlib.Logic.Equiv.Defs
import JavaModel.SourceSet

/-! Addresses of references. An address says where a reference stands: in which unit and class, at
which place of the class, and in which type arguments there. The references that `Class.typeRefs`
and `TypeRef.spread` list are those that have an address, each once. -/

namespace JavaModel

/-! ### Lists of what stands somewhere -/

section Enumerates

variable {ι κ α β : Type} {at? : ι → Option α} {as : List α}

/-- The list has what stands at each place where something stands, once for each place, and nothing
else. -/
def Enumerates (at? : ι → Option α) (as : List α) : Prop :=
  ∃ places : List ι, places.Nodup ∧ (∀ i, i ∈ places ↔ (at? i).isSome) ∧
    List.Forall₂ (fun i a => at? i = some a) places as

/-- A list has at each position what stands there. -/
theorem enumerates_getElem? (as : List α) : Enumerates (fun n : Nat => as[n]?) as := by
  refine ⟨List.range as.length, List.nodup_range, fun n => ?_, List.forall₂_iff_get.mpr ?_⟩
  · simp
  · refine ⟨List.length_range, fun n _ hn => ?_⟩
    simp

theorem enumerates_toList (a : Option α) : Enumerates (fun _ : Unit => a) a.toList := by
  cases a with
  | none => exact ⟨[], .nil, by simp, .nil⟩
  | some a => exact ⟨[()], List.nodup_singleton _, by simp, .cons rfl .nil⟩

namespace Enumerates

theorem map (h : Enumerates at? as) (f : α → β) :
    Enumerates (fun i => (at? i).map f) (as.map f) := by
  obtain ⟨places, hnodup, hmem, hat⟩ := h
  refine ⟨places, hnodup, fun i => ?_, ?_⟩
  · rw [hmem, Option.isSome_map]
  · exact List.forall₂_map_right_iff.mpr (hat.imp fun i a ha =>
      Option.map_eq_some_iff.mpr ⟨a, ha, rfl⟩)

/-- One list behind another. -/
theorem append {other? : κ → Option α} {others : List α} (h : Enumerates at? as)
    (h' : Enumerates other? others) : Enumerates (Sum.elim at? other?) (as ++ others) := by
  obtain ⟨places, hnodup, hmem, hat⟩ := h
  obtain ⟨places', hnodup', hmem', hat'⟩ := h'
  refine ⟨places.map .inl ++ places'.map .inr, ?_, ?_, List.rel_append ?_ ?_⟩
  · refine List.Nodup.append (hnodup.map Sum.inl_injective) (hnodup'.map Sum.inr_injective) ?_
    simp [List.disjoint_left]
  · rintro (i | i)
    · simpa using hmem i
    · simpa using hmem' i
  · exact List.forall₂_map_left_iff.mpr hat
  · exact List.forall₂_map_left_iff.mpr hat'

/-- Lists of what stands in each thing listed, one behind the other. -/
theorem flatMap {inner? : α → κ → Option β} {inner : α → List β} (h : Enumerates at? as)
    (hinner : ∀ a, Enumerates (inner? a) (inner a)) :
    Enumerates (fun i : ι × κ => (at? i.1).bind fun a => inner? a i.2) (as.flatMap inner) := by
  obtain ⟨places, hnodup, hmem, hat⟩ := h
  choose within hnodup' hmem' hat' using hinner
  let below (i : ι) : List (ι × κ) := (at? i).elim [] fun a => (within a).map (Prod.mk i)
  have hsome (i : ι) (a : α) (ha : at? i = some a) : below i = (within a).map (Prod.mk i) := by
    simp only [below, ha, Option.elim_some]
  have hbelow (i : ι) (j : ι × κ) : j ∈ below i ↔ j.1 = i ∧ ∃ a, at? i = some a ∧
      (inner? a j.2).isSome := by
    obtain ⟨i', k⟩ := j
    cases ha : at? i with
    | none => simp [below, ha]
    | some a => simp [hsome i a ha, hmem', and_comm, @eq_comm _ i i']
  refine ⟨places.flatMap below, List.nodup_flatMap.mpr ⟨fun i hi => ?_, ?_⟩, fun j => ?_, ?_⟩
  · obtain ⟨a, ha⟩ := Option.isSome_iff_exists.mp ((hmem i).mp hi)
    rw [hsome i a ha]
    exact (hnodup' a).map (Prod.mk_right_injective i)
  · exact hnodup.imp fun hne j hj hj' =>
      hne (((hbelow _ j).mp hj).1.symm.trans ((hbelow _ j).mp hj').1)
  · rw [List.mem_flatMap]
    constructor
    · rintro ⟨i, _, hj⟩
      obtain ⟨rfl, a, ha, hk⟩ := (hbelow i j).mp hj
      show ((at? j.1).bind fun a => inner? a j.2).isSome
      rwa [ha]
    · intro hj
      obtain ⟨b, hb⟩ := Option.isSome_iff_exists.mp hj
      obtain ⟨a, ha, hk⟩ := Option.bind_eq_some_iff.mp hb
      exact ⟨j.1, (hmem j.1).mpr (ha ▸ rfl), (hbelow j.1 j).mpr ⟨rfl, a, ha, hk ▸ rfl⟩⟩
  · clear hnodup hmem
    induction hat with
    | nil => exact .nil
    | @cons i a places as ha _ ih =>
      rw [List.flatMap_cons, List.flatMap_cons, hsome i a ha]
      refine List.rel_append (List.forall₂_map_left_iff.mpr ((hat' a).imp fun k b hb => ?_)) ih
      exact Option.bind_eq_some_iff.mpr ⟨a, ha, hb⟩

/-- The same places under other names. -/
theorem along (h : Enumerates at? as) (e : κ ≃ ι) {other? : κ → Option α}
    (hat : ∀ k, other? k = at? (e k)) : Enumerates other? as := by
  obtain ⟨places, hnodup, hmem, heach⟩ := h
  refine ⟨places.map e.symm, hnodup.map e.symm.injective, fun k => ?_, ?_⟩
  · rw [hat, ← hmem, List.mem_map]
    constructor
    · rintro ⟨i, hi, rfl⟩
      rwa [e.apply_symm_apply]
    · exact fun hk => ⟨e k, hk, e.symm_apply_apply k⟩
  · refine List.forall₂_map_left_iff.mpr (heach.imp fun i a ha => ?_)
    rwa [hat, e.apply_symm_apply]

theorem filter (h : Enumerates at? as) (p : α → Bool) :
    Enumerates (fun i => (at? i).filter p) (as.filter p) := by
  obtain ⟨places, hnodup, hmem, hat⟩ := h
  refine ⟨places.filter fun i => ((at? i).filter p).isSome, hnodup.filter _, fun i => ?_, ?_⟩
  · rw [List.mem_filter, hmem, and_iff_right_iff_imp]
    intro hsome
    cases ha : at? i with
    | none => simp [ha] at hsome
    | some a => rfl
  · clear hnodup hmem
    induction hat with
    | nil => exact .nil
    | @cons i a places as ha _ ih =>
      cases hp : p a with
      | false =>
        rw [List.filter_cons_of_neg (by simp [ha, hp]), List.filter_cons_of_neg (by simp [hp])]
        exact ih
      | true =>
        rw [List.filter_cons_of_pos (by simp [ha, hp]), List.filter_cons_of_pos (by simp [hp])]
        exact .cons (by simp [ha, hp]) ih

end Enumerates

end Enumerates

/-! ### Places in a reference -/

/-- The reference that stands in the type argument with a number, in an argument of that one, and so
on. Both types and bounds of wildcards are arguments. -/
def TypeRef.at? : List Nat → TypeRef → Option TypeRef
  | [], r => some r
  | n :: path, r => (r.args[n]?.bind Argument.type?).bind (TypeRef.at? path)

namespace TypeRef

/-- The reference at a path into a list of type arguments. -/
def inArgs? (as : List (Argument TypeRef)) (place : Nat × List Nat) : Option TypeRef :=
  (as[place.1]?.bind Argument.type?).bind (TypeRef.at? place.2)

/-- A path is empty, or leads into an argument. -/
def pathEquiv : List Nat ≃ Unit ⊕ Nat × List Nat where
  toFun
    | [] => .inl ()
    | n :: path => .inr (n, path)
  invFun
    | .inl () => []
    | .inr (n, path) => n :: path
  left_inv path := by cases path <;> rfl
  right_inv place := by rcases place with _ | _ <;> rfl

/-- An argument is the first, or one of the others. -/
def argumentEquiv : Nat × List Nat ≃ Nat × List Nat ⊕ List Nat where
  toFun
    | (0, path) => .inr path
    | (n + 1, path) => .inl (n, path)
  invFun
    | .inr path => (0, path)
    | .inl (n, path) => (n + 1, path)
  left_inv place := by rcases place with ⟨_ | _, _⟩ <;> rfl
  right_inv place := by rcases place with _ | _ <;> rfl

mutual

/-- The references spread out are those at some path. -/
theorem enumerates_spread (r : TypeRef) : Enumerates (fun path => r.at? path) r.spread := by
  obtain ⟨name, args, dims, origin⟩ := r
  have hself := enumerates_toList (some (⟨name, args, dims, origin⟩ : TypeRef))
  refine (hself.append (enumerates_spreadArgs args)).along pathEquiv fun path => ?_
  cases path <;> rfl

theorem enumerates_spreadArgs (as : List (Argument TypeRef)) :
    Enumerates (inArgs? as) (spreadArgs as) := by
  cases as with
  | nil => exact ⟨[], .nil, by simp [inArgs?], .nil⟩
  | cons a as =>
    refine ((enumerates_spreadArgs as).append (enumerates_spreadArg a)).along argumentEquiv ?_
    rintro ⟨_ | n, path⟩ <;> rfl

theorem enumerates_spreadArg (a : Argument TypeRef) :
    Enumerates (fun path => a.type?.bind (TypeRef.at? path)) (spreadArg a) := by
  cases a with
  | unbounded => exact ⟨[], .nil, by simp [Argument.type?], .nil⟩
  | exactly t | extending t | above t => exact enumerates_spread t

end

end TypeRef

/-! ### Places in a class -/

/-- A place in a method or a constructor where a type is referred to. -/
inductive MethodPlace where
  | annotated (n : Nat)
  | bound (typeParameter n : Nat)
  | returned
  | parameterAnnotated (parameter n : Nat)
  | parameter (n : Nat)
  | thrown (n : Nat)
deriving DecidableEq, Repr

/-- A place in a class where a type is referred to. -/
inductive ClassPlace where
  | annotated (n : Nat)
  | bound (typeParameter n : Nat)
  | superclass
  | interface (n : Nat)
  | permitted (n : Nat)
  | fieldAnnotated (field n : Nat)
  | field (n : Nat)
  | inConstructor (n : Nat) (place : MethodPlace)
  | inMethod (n : Nat) (place : MethodPlace)
deriving DecidableEq, Repr

/-- The reference at a place of a method. -/
def Method.at? (m : Method) : MethodPlace → Option SitedRef
  | .annotated n => m.annotations[n]?.map fun a => ⟨.annotated m.name, m.line, a.type⟩
  | .bound p n => do
    let p ← m.typeParameters[p]?
    p.bounds[n]?.map fun r => ⟨.bound p.name, m.line, r⟩
  | .returned => m.returnType.map fun r => ⟨.returned m.name, m.line, r⟩
  | .parameterAnnotated p n => do
    let p ← m.parameters[p]?
    p.annotations[n]?.map fun a => ⟨.annotated (p.name.getD m.name), m.line, a.type⟩
  | .parameter n => m.parameters[n]?.map fun p => ⟨.parameter m.name, m.line, p.type⟩
  | .thrown n => m.throwing[n]?.map fun r => ⟨.thrown m.name, m.line, r⟩

/-- The reference at a place of a class. -/
def Class.at? (c : Class) : ClassPlace → Option SitedRef
  | .annotated n => c.annotations[n]?.map fun a => ⟨.annotated c.name, c.line, a.type⟩
  | .bound p n => do
    let p ← c.typeParameters[p]?
    p.bounds[n]?.map fun r => ⟨.bound p.name, c.line, r⟩
  | .superclass => c.superclass.map fun r => ⟨.superclass, c.line, r⟩
  | .interface n => c.interfaces[n]?.map fun r => ⟨.interface, c.line, r⟩
  | .permitted n => c.permitting[n]?.map fun r => ⟨.permitted, c.line, r⟩
  | .fieldAnnotated f n => do
    let f ← c.fields[f]?
    f.annotations[n]?.map fun a => ⟨.annotated f.name, f.line, a.type⟩
  | .field n => c.fields[n]?.map fun f => ⟨.field f.name, f.line, f.type⟩
  | .inConstructor n place => c.constructors[n]?.bind fun m => m.at? place
  | .inMethod n place => c.methods[n]?.bind fun m => m.at? place

section Places

variable (element method : String) (line : Nat)

theorem enumerates_ofAnnotations (as : List (AnnotationUse TypeRef)) :
    Enumerates (fun n : Nat => as[n]?.map fun a => ⟨.annotated element, line, a.type⟩)
      (SitedRef.ofAnnotations element line as) :=
  (enumerates_getElem? as).map _

theorem enumerates_ofBounds (ps : List (TypeParameter TypeRef)) :
    Enumerates (fun i : Nat × Nat =>
        ps[i.1]?.bind fun p => p.bounds[i.2]?.map fun r => ⟨.bound p.name, line, r⟩)
      (SitedRef.ofBounds line ps) :=
  (enumerates_getElem? ps).flatMap fun p => (enumerates_getElem? p.bounds).map _

theorem enumerates_ofParameter (p : Parameter) :
    Enumerates (Sum.elim
        (fun n : Nat =>
          p.annotations[n]?.map fun a => ⟨.annotated (p.name.getD method), line, a.type⟩)
        fun _ : Unit => some ⟨.parameter method, line, p.type⟩)
      (SitedRef.ofParameter method line p) :=
  (enumerates_ofAnnotations _ line _).append (enumerates_toList (some _))

theorem enumerates_ofField (f : Field) :
    Enumerates (Sum.elim
        (fun n : Nat => f.annotations[n]?.map fun a => ⟨.annotated f.name, f.line, a.type⟩)
        fun _ : Unit => some ⟨.field f.name, f.line, f.type⟩)
      (SitedRef.ofField f) :=
  (enumerates_ofAnnotations _ _ _).append (enumerates_toList (some _))

end Places

/-- The places of a method in the order in which its references are listed. -/
def MethodPlace.equiv : MethodPlace ≃
    (((Nat ⊕ Nat × Nat) ⊕ Unit) ⊕ Nat × (Nat ⊕ Unit)) ⊕ Nat where
  toFun
    | .annotated n => .inl (.inl (.inl (.inl n)))
    | .bound p n => .inl (.inl (.inl (.inr (p, n))))
    | .returned => .inl (.inl (.inr ()))
    | .parameterAnnotated p n => .inl (.inr (p, .inl n))
    | .parameter n => .inl (.inr (n, .inr ()))
    | .thrown n => .inr n
  invFun
    | .inl (.inl (.inl (.inl n))) => .annotated n
    | .inl (.inl (.inl (.inr (p, n)))) => .bound p n
    | .inl (.inl (.inr ())) => .returned
    | .inl (.inr (p, .inl n)) => .parameterAnnotated p n
    | .inl (.inr (n, .inr ())) => .parameter n
    | .inr n => .thrown n
  left_inv place := by cases place <;> rfl
  right_inv place := by rcases place with (((_ | _) | _) | ⟨_, _ | _⟩) | _ <;> rfl

/-- The references of a method are those at some place. -/
theorem Method.enumerates_at? (m : Method) : Enumerates m.at? (SitedRef.ofMethod m) := by
  have hparameters :=
    (enumerates_getElem? m.parameters).flatMap (enumerates_ofParameter m.name m.line)
  refine (((((enumerates_ofAnnotations m.name m.line m.annotations).append
    (enumerates_ofBounds m.line m.typeParameters)).append
    ((enumerates_toList m.returnType).map _)).append hparameters).append
    ((enumerates_getElem? m.throwing).map _)).along MethodPlace.equiv fun place => ?_
  cases place with
  | parameter n => exact Option.map_eq_bind ..
  | _ => rfl

/-- The places of a class in the order in which its references are listed. -/
def ClassPlace.equiv : ClassPlace ≃
    (((((Nat ⊕ Nat × Nat) ⊕ Unit) ⊕ Nat) ⊕ Nat) ⊕ Nat × (Nat ⊕ Unit)) ⊕
      (Nat × MethodPlace ⊕ Nat × MethodPlace) where
  toFun
    | .annotated n => .inl (.inl (.inl (.inl (.inl (.inl n)))))
    | .bound p n => .inl (.inl (.inl (.inl (.inl (.inr (p, n))))))
    | .superclass => .inl (.inl (.inl (.inl (.inr ()))))
    | .interface n => .inl (.inl (.inl (.inr n)))
    | .permitted n => .inl (.inl (.inr n))
    | .fieldAnnotated f n => .inl (.inr (f, .inl n))
    | .field n => .inl (.inr (n, .inr ()))
    | .inConstructor n place => .inr (.inl (n, place))
    | .inMethod n place => .inr (.inr (n, place))
  invFun
    | .inl (.inl (.inl (.inl (.inl (.inl n))))) => .annotated n
    | .inl (.inl (.inl (.inl (.inl (.inr (p, n)))))) => .bound p n
    | .inl (.inl (.inl (.inl (.inr ())))) => .superclass
    | .inl (.inl (.inl (.inr n))) => .interface n
    | .inl (.inl (.inr n)) => .permitted n
    | .inl (.inr (f, .inl n)) => .fieldAnnotated f n
    | .inl (.inr (n, .inr ())) => .field n
    | .inr (.inl (n, place)) => .inConstructor n place
    | .inr (.inr (n, place)) => .inMethod n place
  left_inv place := by cases place <;> rfl
  right_inv place := by
    rcases place with (((((_ | _) | _) | _) | _) | ⟨_, _ | _⟩) | (_ | _) <;> rfl

/-- The references of a class are those at some place. -/
theorem Class.enumerates_at? (c : Class) : Enumerates c.at? c.typeRefs := by
  have hfields := (enumerates_getElem? c.fields).flatMap enumerates_ofField
  have hmethods := ((enumerates_getElem? c.constructors).flatMap Method.enumerates_at?).append
    ((enumerates_getElem? c.methods).flatMap Method.enumerates_at?)
  rw [typeRefs, List.flatMap_append]
  refine (((((((enumerates_ofAnnotations c.name c.line c.annotations).append
    (enumerates_ofBounds c.line c.typeParameters)).append
    ((enumerates_toList c.superclass).map _)).append
    ((enumerates_getElem? c.interfaces).map _)).append
    ((enumerates_getElem? c.permitting).map _)).append hfields).append
    hmethods).along ClassPlace.equiv fun place => ?_
  cases place with
  | field n => exact Option.map_eq_bind ..
  | _ => rfl

/-! ### Addresses -/

/-- Where a reference stands: the numbers of a unit and of a class in it, the place in the class,
and the numbers of the type arguments from the outside in. -/
structure Address where
  unit : Nat
  owner : Nat
  place : ClassPlace
  arguments : List Nat
deriving DecidableEq, Repr

/-- A reference with the path of its unit, the full name of its class, and what is told of the place
and the line of the outermost reference around it. -/
structure Reference where
  path : FilePath
  owner : String
  site : TypeSite
  line : Nat
  ref : TypeRef
deriving Repr

namespace SourceSet

variable (s : SourceSet)

/-- The reference at an address. -/
def reference? (a : Address) : Option Reference := do
  let u ← s.units[a.unit]?
  let c ← u.classes[a.owner]?
  let site ← c.at? a.place
  (site.ref.at? a.arguments).map fun r => ⟨u.path, c.fullName, site.site, site.line, r⟩

/-- All references of all classes, in order. -/
def references : List Reference :=
  s.units.flatMap fun u => u.classes.flatMap fun c => c.typeRefs.flatMap fun site =>
    site.ref.spread.map fun r => ⟨u.path, c.fullName, site.site, site.line, r⟩

/-- An address by its parts. -/
def addressEquiv : Address ≃ Nat × Nat × ClassPlace × List Nat where
  toFun a := (a.unit, a.owner, a.place, a.arguments)
  invFun a := ⟨a.1, a.2.1, a.2.2.1, a.2.2.2⟩
  left_inv _ := rfl
  right_inv _ := rfl

/-- The references listed are those that have an address. -/
theorem enumerates_reference? : Enumerates s.reference? s.references := by
  have hlisted := (enumerates_getElem? s.units).flatMap fun u =>
    (enumerates_getElem? u.classes).flatMap fun c =>
      c.enumerates_at?.flatMap fun site => (site.ref.enumerates_spread).map fun r =>
        (⟨u.path, c.fullName, site.site, site.line, r⟩ : Reference)
  exact hlisted.along addressEquiv fun _ => rfl

end SourceSet

end JavaModel
