import JavaModel.Proofs.Session.Renaming
import JavaModel.Session.Members

/-! What questions are made of. A question looks for classes, records what references mean, and
looks at the session in between; nothing else. So what holds of two sessions that are the same but
for ids is kept by every question if it is kept where a class is looked for and where a meaning is
recorded, and both sessions answer the same but for ids. -/

namespace JavaModel

variable {ρ : Renaming} {ordered : Prop}

namespace Session

open Query

variable {S : Session → Session → Prop} {s t : Session}

/-- Related sessions are the same but for ids, and stay related where a class is looked for and
where a meaning is recorded for a name of some unit. -/
structure Congruent (ρ : Renaming) (ordered : Prop) (S : Session → Session → Prop) : Prop where
  same : ∀ {s t : Session}, S s t → s.Alike ρ ordered t
  find : ∀ {s t : Session}, S s t → ∀ onlyExisting name,
    S (find onlyExisting name s).2 (find onlyExisting name t).2
  record : ∀ {s t : Session} {slot : Slot}, S s t → (s.sources.unit? slot.source).isSome →
    ∀ fullName, S { s with known := s.known.record slot fullName }
      { t with known := t.known.record (slot.rename ρ) fullName }

theorem congruent_alike : Congruent ρ ordered (Alike ρ ordered) :=
  ⟨id, fun hst onlyExisting name => (alike_find onlyExisting name _ _ hst).2,
    fun hst _ => hst.record _⟩

/-- A property of one session that is kept where a class is looked for and a meaning is recorded. -/
theorem congruent_self {P : Session → Prop}
    (hfind : ∀ {s : Session}, P s → ∀ onlyExisting name, P (find onlyExisting name s).2)
    (hrecord : ∀ {s : Session} {slot : Slot}, P s → (s.sources.unit? slot.source).isSome →
      ∀ fullName, P { s with known := s.known.record slot fullName }) :
    Congruent (.refl UnitId) True (fun s t => s = t ∧ P s) where
  same := by
    rintro s t ⟨rfl, _⟩
    exact .refl s
  find := by
    rintro s t ⟨rfl, hs⟩ onlyExisting name
    exact ⟨rfl, hfind hs onlyExisting name⟩
  record := by
    rintro s t slot ⟨rfl, hs⟩ hunit fullName
    exact ⟨by rw [Slot.rename_refl]; rfl, hrecord hs hunit fullName⟩

/-- Surroundings that related sessions ask alike, and that only add to the units. -/
structure Steady (S : Session → Session → Prop) (around : Surroundings Query) : Prop where
  isKnown : ∀ name, Relates S Eq (around.isKnown name) (around.isKnown name)
  grows : ∀ (name : String) (s : Session), s.sources.Grows (around.isKnown name s).2.sources

theorem sources_count (s : Session) (tally : Tally) : (s.count tally).sources = s.sources := by
  cases tally <;> rfl

theorem grows_hasClass (name : String) (s : Session) :
    s.sources.Grows (hasClass name s).2.sources := by
  change s.sources.Grows (count _ _).sources
  rw [sources_count]
  exact grows_consult s.tree true name 0 s.entries s.sources

theorem implicitSuperclass?_rename (c : Class) :
    (c.rename ρ).implicitSuperclass? = c.implicitSuperclass? := by
  have hstub : (c.rename ρ).isStub = c.isStub := by
    rcases c with ⟨⟩
    rename_i origin
    cases origin <;> rfl
  have hsuperclass : (c.rename ρ).superclass.isSome = c.superclass.isSome := Option.isSome_map
  unfold Class.implicitSuperclass?
  rw [hstub, hsuperclass]
  rfl

theorem enqueue_rename (seen : List String) (as : List Answer) :
    enqueue seen (as.map (Answer.rename ρ)) =
      ((enqueue seen as).1.map (Answer.rename ρ), (enqueue seen as).2) := by
  induction as generalizing seen with
  | nil => rfl
  | cons a as ih =>
    have hname : (a.rename ρ).found.fullName = a.found.fullName := rfl
    simp only [List.map_cons, enqueue, hname, ih]
    split <;> rfl

namespace Congruent

variable (h : Congruent ρ ordered S)

include h

theorem relates_find (onlyExisting : Bool) (name : String) :
    Relates S (Option.map (Answer.rename ρ) · = ·) (Session.find onlyExisting name)
      (Session.find onlyExisting name) :=
  fun s t hst => ⟨(alike_find onlyExisting name s t (h.same hst)).1, h.find hst onlyExisting name⟩

theorem relates_classNamed (name : String) :
    Relates S (Option.map (Answer.rename ρ) · = ·) (classNamed name) (classNamed name) :=
  h.relates_find false name

theorem relates_hasClass (name : String) : Relates S Eq (hasClass name) (hasClass name) :=
  (h.relates_find true name).bindMap fun _ => relates_pure Option.isSome_map.symm

/-! ### Resolution -/

theorem steady_library (s : Session) : Steady S s.library := ⟨h.relates_hasClass, grows_hasClass⟩

theorem steady_onlySources : Steady S onlySources :=
  ⟨fun name _ _ hst => ⟨((h.same hst).sources.contains name).symm, hst⟩, fun _ _ => .refl _⟩

theorem relates_resolve {around : Surroundings Query} (haround : Steady S around) (r : TypeRef) :
    Relates S Eq (resolve around r) (resolve around (r.rename ρ)) := by
  unfold resolve
  rw [TypeRef.origin_rename, TypeRef.name_rename]
  cases r.origin with
  | qualified => exact relates_pure rfl
  | typeVariable => exact relates_pure rfl
  | written slot context =>
    -- The unit of the name is still there when its meaning is recorded.
    have hstays (name : String) : Relates
        (fun s t => S s t ∧ (s.sources.unit? slot.source).isSome) Eq (around.isKnown name)
        (around.isKnown name) := by
      rintro s t ⟨hst, hsome⟩
      obtain ⟨u, hu⟩ := Option.isSome_iff_exists.mp hsome
      obtain ⟨hanswer, hstates⟩ := haround.isKnown name s t hst
      refine ⟨hanswer, hstates, ?_⟩
      rw [(haround.grows name s).unit? hu]
      rfl
    intro s t hst
    dsimp only [TypeOrigin.rename, Slot.source_rename]
    rw [bind_apply, bind_apply, get_apply, get_apply, (h.same hst).known,
      (h.same hst).sources.unit?]
    cases s.known.find? slot with
    | some fullName => exact ⟨rfl, hst⟩
    | none =>
      cases hunit : s.sources.unit? slot.source with
      | none => exact ⟨rfl, hst⟩
      | some u =>
        dsimp only [Option.map_some]
        obtain ⟨hmeaning, hstates, hsome⟩ :=
          relates_resolveName u hstays context r.name s t ⟨hst, by rw [hunit]; rfl⟩
        rw [SourceUnit.resolveName_rename, bind_apply, bind_apply, ← hmeaning]
        cases (u.resolveName around context r.name s).1 with
        | some fullName => exact ⟨rfl, h.record hstates hsome fullName⟩
        | none => exact ⟨rfl, hstates⟩

theorem relates_resolveRef (r : TypeRef) :
    Relates S Eq (resolveRef r) (resolveRef (r.rename ρ)) := by
  refine relates_get.bind fun s t hst => ?_
  rw [(h.same hst).library]
  exact h.relates_resolve (h.steady_library s) r

theorem relates_resolveAmongUnits (r : TypeRef) :
    Relates S Eq (resolve onlySources r) (resolve onlySources (r.rename ρ)) :=
  h.relates_resolve h.steady_onlySources r

omit h in
mutual

theorem relates_genericValue (r : TypeRef) (h : Congruent ρ ordered S)
    {around : Surroundings Query} (haround : Steady S around) :
    Relates S Eq (genericValue around r) (genericValue around (r.rename ρ)) := by
  obtain ⟨name, args, dims, origin⟩ := r
  exact (h.relates_resolve haround ⟨name, args, dims, origin⟩).bindEq fun _ =>
    (relates_genericArgs args h haround).bindEq fun _ => relates_pure rfl

theorem relates_genericArgs (as : List (Argument TypeRef)) (h : Congruent ρ ordered S)
    {around : Surroundings Query} (haround : Steady S around) :
    Relates S Eq (genericArgs around as)
      (genericArgs around (TypeRef.renameArgs ρ as)) := by
  cases as with
  | nil => exact relates_pure rfl
  | cons a as =>
    exact (relates_genericArg a h haround).bindEq fun _ => (relates_genericArgs as h haround).bindEq fun _ =>
      relates_pure rfl

theorem relates_genericArg (a : Argument TypeRef) (h : Congruent ρ ordered S)
    {around : Surroundings Query} (haround : Steady S around) :
    Relates S Eq (genericArg around a)
      (genericArg around (TypeRef.renameArg ρ a)) := by
  cases a with
  | exactly t => exact relates_genericValue t h haround
  | unbounded => exact relates_pure rfl
  | extending t | above t => exact (relates_genericValue t h haround).bindEq fun _ => relates_pure rfl

end

/-- The text of a reference with all names in it resolved by the library. -/
theorem relates_genericValueRef (r : TypeRef) :
    Relates S Eq (do genericValue (← get).library r)
      (do genericValue (← get).library (r.rename ρ)) := by
  refine relates_get.bind fun s t hst => ?_
  rw [(h.same hst).library]
  exact relates_genericValue r h (h.steady_library s)

/-! ### Members -/

theorem relates_parameterType (p : Parameter) :
    Relates S Eq (parameterType p) (parameterType (p.rename ρ)) := by
  unfold parameterType
  refine (h.relates_resolveRef p.type).bindEq fun type => relates_pure ?_
  rw [show (p.rename ρ).type = p.type.rename ρ from rfl, TypeRef.dims_rename]
  rfl

theorem relates_parameterTypes (m : Method) :
    Relates S Eq (parameterTypes m) (parameterTypes (m.rename ρ)) :=
  Relates.mapM_map h.relates_parameterType m.parameters

theorem relates_signature (m : Method) :
    Relates S Eq (signature m) (signature (m.rename ρ)) :=
  (h.relates_parameterTypes m).bindEq fun _ => relates_pure rfl

theorem relates_hasSignature (m : Method) (name : String) (types : List String) :
    Relates S Eq (hasSignature m name types)
      (hasSignature (m.rename ρ) name types) := by
  have hlength : (m.rename ρ).parameters.length = m.parameters.length := List.length_map ..
  unfold hasSignature
  rw [hlength]
  exact .ite ((h.relates_parameterTypes m).bindEq fun _ => relates_pure rfl) (relates_pure rfl)

theorem relates_firstWithSignature (name : String) (types : List String) (ms : List Method) :
    Relates S (Option.map (Method.rename ρ) · = ·)
      (firstWithSignature name types ms)
      (firstWithSignature name types (ms.map (Method.rename ρ))) := by
  induction ms with
  | nil => exact relates_pure rfl
  | cons m ms ih =>
    exact (h.relates_hasSignature m name types).bindEq fun _ => .ite (relates_pure rfl) ih

theorem relates_method? (c : Class) (name : String) (types : List String) :
    Relates S (Option.map (Method.rename ρ) · = ·) (method? c name types)
      (method? (c.rename ρ) name types) := h.relates_firstWithSignature name types c.methods

theorem relates_constructor? (c : Class) (types : List String) :
    Relates S (Option.map (Method.rename ρ) · = ·) (constructor? c types)
      (constructor? (c.rename ρ) types) := h.relates_firstWithSignature c.name types c.constructors

/-! ### Classes above a class -/

theorem relates_superclassName (c : Class) :
    Relates S Eq (superclassName c) (superclassName (c.rename ρ)) := by
  have hsuperclass : (c.rename ρ).superclass = c.superclass.map (TypeRef.rename ρ) := rfl
  unfold superclassName
  rw [implicitSuperclass?_rename, hsuperclass]
  cases c.superclass with
  | some r => exact (h.relates_resolveRef r).bindEq fun _ => relates_pure rfl
  | none => exact relates_pure rfl

theorem relates_superclassOf (c : Class) :
    Relates S (Option.map (Answer.rename ρ) · = ·) (superclassOf c)
      (superclassOf (c.rename ρ)) := by
  refine (h.relates_superclassName c).bindEq fun name => ?_
  cases name with
  | some name => exact h.relates_classNamed name
  | none => exact relates_pure rfl

theorem relates_findAll (rs : List TypeRef) :
    Relates S (List.map (Answer.rename ρ) · = ·) (findAll rs)
      (findAll (rs.map (TypeRef.rename ρ))) := by
  induction rs with
  | nil => exact relates_pure rfl
  | cons r rs ih =>
    refine (h.relates_resolveRef r).bindEq fun name => (h.relates_classNamed name).bindMap fun first =>
      ih.bindMap fun rest => relates_pure ?_
    rw [List.map_append, Option.toList_map]

theorem relates_interfacesOf (c : Class) :
    Relates S (List.map (Answer.rename ρ) · = ·) (interfacesOf c)
      (interfacesOf (c.rename ρ)) := h.relates_findAll c.interfaces

theorem relates_directSupertypes (c : Class) :
    Relates S (List.map (Answer.rename ρ) · = ·) (directSupertypes c)
      (directSupertypes (c.rename ρ)) := by
  refine (h.relates_superclassOf c).bindMap fun above => (h.relates_interfacesOf c).bindMap fun interfaces =>
    relates_pure ?_
  rw [List.map_append, Option.toList_map]

theorem relates_walkWithin (n : Nat) (seen : List String) (queue : List Answer) :
    Relates S (Option.map (List.map (Answer.rename ρ)) · = ·) (walkWithin n seen queue)
      (walkWithin n seen (queue.map (Answer.rename ρ))) := by
  induction n generalizing seen queue with
  | zero => cases queue <;> exact relates_pure rfl
  | succ n ih =>
    cases queue with
    | nil => exact relates_pure rfl
    | cons a queue =>
      rw [List.map_cons, walkWithin_cons, walkWithin_cons]
      refine (h.relates_directSupertypes a.found).bindMap fun above => ?_
      rw [enqueue_rename]
      dsimp only
      rw [← List.map_append]
      refine (ih _ _).bindMap fun found => relates_pure ?_
      cases found <;> rfl

theorem relates_ancestorsWithin (n : Nat) (c : Class) :
    Relates S (Option.map (List.map (Answer.rename ρ)) · = ·) (ancestorsWithin n c)
      (ancestorsWithin n (c.rename ρ)) := by
  rw [ancestorsWithin_eq, ancestorsWithin_eq]
  refine (h.relates_directSupertypes c).bindMap fun above => ?_
  rw [show (c.rename ρ).fullName = c.fullName from rfl, enqueue_rename]
  exact h.relates_walkWithin n _ _

theorem relates_ancestors (c : Class) :
    Relates S (Option.map (List.map (Answer.rename ρ)) · = ·) (ancestors c)
      (ancestors (c.rename ρ)) := by
  intro s t hst
  have hwithin (n : Nat) := h.relates_ancestorsWithin n c s t hst
  obtain ⟨n, hends, heq⟩ | ⟨hnone, heq⟩ := ancestors_cases c s
  · have hends' : (ancestorsWithin n (c.rename ρ) t).1.isSome := by
      rw [← (hwithin n).1, Option.isSome_map]
      exact hends
    rw [heq, ancestors_of_within n hends']
    exact hwithin n
  · have hnone' (n : Nat) : (ancestorsWithin n (c.rename ρ) t).1 = none := by
      rw [← (hwithin n).1, hnone, Option.map_none]
    rw [heq, ancestors_of_unbounded hnone']
    exact ⟨rfl, hst⟩

theorem relates_isA (c : Class) (fullName : String) :
    Relates S Eq (isA c fullName) (isA (c.rename ρ) fullName) := by
  refine .ite (relates_pure rfl) ((h.relates_ancestors c).bindMap fun above => relates_pure ?_)
  rw [Option.map_map]
  refine Option.map_congr fun as _ => ?_
  rw [Function.comp_apply, List.any_map]
  rfl

/-! ### Checks -/

theorem relates_unresolvedAmong (path : FilePath) (owner : String) (site : TypeSite) (line : Nat)
    (rs : List TypeRef) :
    Relates S Eq (unresolvedAmong path owner site line rs)
      (unresolvedAmong path owner site line (rs.map (TypeRef.rename ρ))) := by
  induction rs with
  | nil => exact relates_pure rfl
  | cons r rs ih =>
    refine (h.relates_resolveRef r).bindEq fun _ => relates_get.bind fun s t hst => ?_
    rw [(h.same hst).isResolved, TypeRef.name_rename]
    exact ih.bindEq fun _ => relates_pure rfl

theorem relates_unresolvedIn (path : FilePath) (c : Class) :
    Relates S Eq (unresolvedIn path c) (unresolvedIn path (c.rename ρ)) := by
  unfold unresolvedIn
  rw [Class.typeRefs_rename]
  refine (Relates.mapM_map (fun r => ?_) c.typeRefs).bindEq fun _ => relates_pure rfl
  have hspread : (r.rename ρ).ref.spread = r.ref.spread.map (TypeRef.rename ρ) :=
    TypeRef.spread_rename ρ r.ref
  rw [hspread]
  exact h.relates_unresolvedAmong path c.fullName r.site r.line r.ref.spread

/-- Where units are in the same order, the same references mean nothing. -/
theorem relates_unresolved (hordered : ordered) : Relates S Eq unresolved unresolved := by
  refine relates_get.bind fun s t hst => ?_
  rw [(h.same hst).sources.inOrder hordered]
  refine (Relates.mapM_map (fun u => ?_) s.sources.units).bindEq fun _ => relates_pure rfl
  exact Relates.mapM_map (h.relates_unresolvedIn u.path) u.classes

theorem relates_check (hordered : ordered) : Relates S Eq check check :=
  (h.relates_unresolved hordered).bindEq fun _ => relates_pure rfl

end Congruent

end Session

end JavaModel
