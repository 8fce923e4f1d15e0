import JavaModel.Proofs.Resolution

/-! Type variables in a source unit. A name counts as a type variable where a type parameter of that
name is in sight: one of the class that the name stands in, of a class around that, or of the method
or constructor whose head it stands in. The names in sight are kept in frames beside the open
classes, so that what is shown of every event is that the open classes stand one inside the other,
each with a frame of the names of its own type parameters. -/

namespace JavaModel

/-! ### Names in sight -/

/-- The names that type parameters declare. -/
def parameterNames {τ : Type} (ps : List (TypeParameter τ)) : List String :=
  ps.map TypeParameter.name

/-- Of the names in a reference, at any depth, those are type variables that are in sight and no
primitive types. -/
def TypeRef.Sights (names : List String) (r : TypeRef) : Prop :=
  ∀ q ∈ r.spread, q.isVariable ↔ ¬ Name.isPrimitive q.name ∧ q.name ∈ names

/-- What a scope makes of a type has the type variables that are in the scope. -/
theorem Assembly.Scope.Refers.sights {s : Scope} {t : TypeExpr} {r : TypeRef}
    (h : s.Refers t r) : r.Sights s.typeParameters := by
  intro q hq
  have hgives := h.origin q hq
  unfold TypeRef.isVariable
  cases horigin : q.origin with
  | qualified =>
    rw [horigin] at hgives
    cases hgives with
    | primitive hprimitive => simp [hprimitive]
  | typeVariable =>
    rw [horigin] at hgives
    cases hgives with
    | typeVariable hprimitive hmem => simp [hprimitive, hmem]
  | written slot context =>
    rw [horigin] at hgives
    cases hgives with
    | written n _ hmem => simp [hmem]

/-- Type parameters of the model have the names of those written. -/
theorem parameterNames_holds {R : TypeExpr → TypeRef → Prop} {ws : List (TypeParameter TypeExpr)}
    {ps : List (TypeParameter TypeRef)} (h : List.Forall₂ (TypeParameter.Holds R) ws ps) :
    parameterNames ps = parameterNames ws := by
  unfold parameterNames
  induction h with
  | nil => rfl
  | cons hp _ ih => rw [List.map_cons, List.map_cons, hp.name, ih]

namespace Class

/-- The references in the head of a class. -/
def headRefs (c : Class) : List SitedRef :=
  SitedRef.ofAnnotations c.name c.line c.annotations ++
    SitedRef.ofBounds c.line c.typeParameters ++
    (c.superclass.toList.map fun r => ⟨.superclass, c.line, r⟩) ++
    (c.interfaces.map fun r => ⟨.interface, c.line, r⟩) ++
    (c.permitting.map fun r => ⟨.permitted, c.line, r⟩)

/-- Every reference of a class stands in its head, in a field, or in a method or constructor. -/
theorem typeRefs_eq (c : Class) : c.typeRefs = c.headRefs ++
    c.fields.flatMap SitedRef.ofField ++ (c.constructors ++ c.methods).flatMap SitedRef.ofMethod :=
  rfl

/-- The head and the fields of a class have in sight what the class has, its methods and
constructors their own type parameters as well. -/
structure Sights (names : List String) (c : Class) : Prop where
  head : ∀ r ∈ c.headRefs, r.ref.Sights names
  fields : ∀ f ∈ c.fields, ∀ r ∈ SitedRef.ofField f, r.ref.Sights names
  methods : ∀ m ∈ c.constructors ++ c.methods, ∀ r ∈ SitedRef.ofMethod m,
    r.ref.Sights (parameterNames m.typeParameters ++ names)

variable {names : List String} {c : Class}

theorem Sights.nest (h : c.Sights names) (inner : ClassIndex) : (c.nest inner).Sights names :=
  ⟨h.head, h.fields, h.methods⟩

theorem Sights.withField (h : c.Sights names) {f : Field}
    (hf : ∀ r ∈ SitedRef.ofField f, r.ref.Sights names) : (c.withField f).Sights names := by
  refine ⟨h.head, fun g hg => ?_, h.methods⟩
  rcases List.mem_append.mp hg with hg | hg
  · exact h.fields g hg
  · obtain rfl := List.mem_singleton.mp hg
    exact hf

theorem Sights.withMethod (h : c.Sights names) {m : Method} (hm : ∀ r ∈ SitedRef.ofMethod m,
    r.ref.Sights (parameterNames m.typeParameters ++ names)) : (c.withMethod m).Sights names := by
  have hall : ∀ n, n ∈ c.constructors ++ c.methods ∨ n = m → ∀ r ∈ SitedRef.ofMethod n,
      r.ref.Sights (parameterNames n.typeParameters ++ names) := by
    rintro n (hn | rfl)
    · exact h.methods n hn
    · exact hm
  unfold Class.withMethod
  split
  all_goals
    refine ⟨h.head, h.fields, fun n hn => hall n ?_⟩
    simp only [List.mem_append, List.mem_singleton] at hn ⊢
    tauto

end Class

namespace SourceUnit

variable {u v : SourceUnit} {context : Option ClassIndex} {names : List String}

/-- What is in sight at a place: the type parameters of the class there and of those around it. -/
inductive Sees (u : SourceUnit) : Option ClassIndex → List String → Prop where
  | outside : Sees u none []
  | inside {i : ClassIndex} {c : Class} {names : List String} (h : u.classAt? i = some c)
      (more : Sees u c.enclosing names) : Sees u (some i) (parameterNames c.typeParameters ++ names)

theorem Sees.unique {names' : List String} (h : u.Sees context names)
    (h' : u.Sees context names') : names = names' := by
  induction h generalizing names' with
  | outside =>
    cases h'
    rfl
  | inside h _ ih =>
    cases h' with
    | inside hclass more =>
      obtain rfl := Option.some.inj (h.symm.trans hclass)
      rw [ih more]

/-- What is in sight are the names of the type parameters on a walk outward. -/
theorem Sees.outward (h : u.Sees context names) : ∃ around, u.Outward context around ∧
    names = around.flatMap fun d => parameterNames d.typeParameters := by
  induction h with
  | outside => exact ⟨[], .done, rfl⟩
  | @inside i c _ h _ ih =>
    obtain ⟨around, houtward, rfl⟩ := ih
    exact ⟨c :: around, .step h houtward, rfl⟩

/-- The classes of a unit are still there in another one, inside the same classes and with the same
type parameters. -/
def Extends (u v : SourceUnit) : Prop :=
  ∀ i c, u.classAt? i = some c → ∃ d, v.classAt? i = some d ∧ d.enclosing = c.enclosing ∧
    d.typeParameters = c.typeParameters

theorem Extends.sees (h : Extends u v) (hsees : u.Sees context names) : v.Sees context names := by
  induction hsees with
  | outside => exact .outside
  | inside hc _ ih =>
    obtain ⟨d, hd, henclosing, hparameters⟩ := h _ _ hc
    rw [← hparameters]
    exact .inside hd (henclosing ▸ ih)

/-- The open classes stand one inside the other, the first one innermost, each with a frame of the
names of its own type parameters. -/
inductive Stacked (u : SourceUnit) : List ClassIndex → List (List String) → Prop where
  | nil : Stacked u [] []
  | cons {i : ClassIndex} {is : List ClassIndex} {scopes : List (List String)} {c : Class}
      (hc : u.classAt? i = some c) (henclosing : c.enclosing = is.head?)
      (more : Stacked u is scopes) :
      Stacked u (i :: is) (parameterNames c.typeParameters :: scopes)

variable {is : List ClassIndex} {scopes : List (List String)}

/-- The names of stacked classes are in sight in the innermost of them. -/
theorem Stacked.sees (h : u.Stacked is scopes) : u.Sees is.head? scopes.flatten := by
  induction h with
  | nil => exact .outside
  | cons hc henclosing _ ih =>
    rw [List.flatten_cons]
    exact .inside hc (henclosing ▸ ih)

theorem Stacked.tail (h : u.Stacked is scopes) : u.Stacked is.tail scopes.tail := by
  cases h with
  | nil => exact .nil
  | cons _ _ more => exact more

/-- Each class has a frame, and each frame a class. -/
theorem Stacked.aligned (h : u.Stacked is scopes) : List.Forall₂ (fun i names =>
    ∃ c, u.classAt? i = some c ∧ names = parameterNames c.typeParameters) is scopes := by
  induction h with
  | nil => exact .nil
  | cons hc _ _ ih => exact .cons ⟨_, hc, rfl⟩ ih

theorem Extends.stacked (h : Extends u v) (hstacked : u.Stacked is scopes) :
    v.Stacked is scopes := by
  induction hstacked with
  | nil => exact .nil
  | cons hc henclosing _ ih =>
    obtain ⟨d, hd, hsame, hparameters⟩ := h _ _ hc
    rw [← hparameters]
    exact .cons hd (hsame.trans henclosing) ih

theorem extends_modifyClass (i : ClassIndex) {f : Class → Class}
    (hf : ∀ c, (f c).enclosing = c.enclosing ∧ (f c).typeParameters = c.typeParameters) :
    Extends u (Assembly.modifyClass u i f) := by
  intro j c hc
  rw [classAt?_modifyClass, hc, Option.map_some]
  refine ⟨_, rfl, ?_⟩
  split
  · exact hf c
  · exact ⟨rfl, rfl⟩

/-- A unit is extended by a class that is hung into it. -/
theorem extends_hang {c : Class} (h : ∀ j, c.enclosing = some j → (u.classAt? j).isSome) :
    Extends u (u.hang c) := by
  intro i d hd
  have hlt : i.number < u.classes.length := (List.getElem?_eq_some_iff.mp hd).1
  rw [classAt?_hang h, if_neg (Nat.ne_of_lt hlt), hd, Option.map_some]
  refine ⟨_, rfl, (u.besides_fullName c i d).2.2, ?_⟩
  unfold besides
  split <;> rfl

end SourceUnit

/-! ### Every event -/

namespace Assembly

open SourceUnit

variable {a : Assembly}

/-- The open classes are stacked, and every class has in sight what its place has. -/
structure Sighted (a : Assembly) : Prop where
  stacked : a.unit.Stacked a.stack a.typeScopes
  classes : ∀ i c, a.unit.classAt? i = some c → ∃ names, a.unit.Sees (some i) names ∧ c.Sights names

theorem sighted_start (id : UnitId) (path : FilePath) : (start id path).Sighted := by
  refine ⟨.nil, fun i c hc => ?_⟩
  simp [start, SourceUnit.classAt?] at hc

/-- In the innermost open class, the names in scope are in sight. -/
theorem Sighted.sees (h : a.Sighted) : a.unit.Sees a.innermost a.typeScopes.flatten :=
  h.stacked.sees

/-- The innermost open class is there. -/
theorem Sighted.innermost (h : a.Sighted) {i : ClassIndex} (hi : a.innermost = some i) :
    ∃ c, a.unit.classAt? i = some c := by
  obtain ⟨rest, hstack⟩ := List.head?_eq_some_iff.mp hi
  have haligned := h.stacked.aligned
  rw [hstack] at haligned
  obtain ⟨_, _, ⟨c, hc, -⟩, -, -⟩ := List.forall₂_cons_left_iff.mp haligned
  exact ⟨c, hc⟩

theorem Sighted.beginClass (h : a.Sighted) (w : Written.Class) : (a.beginClass w).Sighted := by
  obtain ⟨made, slots, hmade, heq⟩ := a.beginClass_spec w
  have houter (j : ClassIndex) (hj : made.enclosing = some j) : (a.unit.classAt? j).isSome := by
    obtain ⟨o, ho⟩ := h.innermost (hmade.enclosing.symm.trans hj)
    rw [ho]
    rfl
  have hextends := extends_hang houter
  have hlookup := classAt?_hang houter
  have hnew : (a.unit.hang made).classAt? ⟨a.unit.classes.length⟩ = some made := by
    rw [hlookup, if_pos rfl]
  have hnames : parameterNames made.typeParameters = parameterNames w.typeParameters :=
    parameterNames_holds hmade.holds.typeParameters
  have hstacked : (a.unit.hang made).Stacked (⟨a.unit.classes.length⟩ :: a.stack)
      (parameterNames w.typeParameters :: a.typeScopes) :=
    hnames ▸ .cons hnew hmade.enclosing (hextends.stacked h.stacked)
  rw [heq]
  refine ⟨hstacked, fun i c hc => ?_⟩
  dsimp only at hc ⊢
  rw [hlookup] at hc
  split at hc
  · -- The new class has no members yet; its head is in its own scope.
    rename_i hi
    obtain rfl := Option.some.inj hc
    obtain rfl : i = ⟨a.unit.classes.length⟩ := congrArg ClassIndex.mk hi
    have hsees := hextends.sees h.sees
    rw [← hmade.enclosing] at hsees
    refine ⟨_, .inside hnew hsees, ?_, ?_, ?_⟩
    · intro r hr
      have hrefs : r ∈ made.typeRefs := by
        rw [Class.typeRefs_eq, hmade.fields, hmade.constructors, hmade.methods]
        simpa using hr
      obtain ⟨t, -, ht⟩ | ⟨f, hf, -⟩ | ⟨m, hm, -⟩ := hmade.holds.refs hrefs
      · rw [hnames]
        exact ht.sights
      · simp [hmade.fields] at hf
      · simp [hmade.constructors, hmade.methods] at hm
    · simp [hmade.fields]
    · simp [hmade.constructors, hmade.methods]
  · obtain ⟨b, hb, rfl⟩ := Option.map_eq_some_iff.mp hc
    obtain ⟨names, hsees, hsights⟩ := h.classes i b hb
    refine ⟨names, hextends.sees hsees, ?_⟩
    unfold besides
    split
    · exact hsights.nest _
    · exact hsights

/-- The innermost open class takes a member that has in sight what the class has. -/
theorem Sighted.modify (h : a.Sighted) {i : ClassIndex} (hi : a.innermost = some i)
    {f : Class → Class} (slots : Nat)
    (hsame : ∀ c, (f c).enclosing = c.enclosing ∧ (f c).typeParameters = c.typeParameters)
    (hsights : ∀ c, c.Sights a.typeScopes.flatten → (f c).Sights a.typeScopes.flatten) :
    Sighted { a with unit := modifyClass a.unit i f, pendingDoc := none, slots } := by
  have hextends : Extends a.unit (modifyClass a.unit i f) := extends_modifyClass i hsame
  refine ⟨hextends.stacked h.stacked, fun j c hc => ?_⟩
  dsimp only at hc ⊢
  rw [classAt?_modifyClass] at hc
  obtain ⟨b, hb, rfl⟩ := Option.map_eq_some_iff.mp hc
  obtain ⟨names, hsees, hb⟩ := h.classes j b hb
  refine ⟨names, hextends.sees hsees, ?_⟩
  split
  · rename_i hj
    have hinner := h.sees
    rw [hi, ← hj] at hinner
    obtain rfl := hsees.unique hinner
    exact hsights b hb
  · exact hb

theorem Sighted.addField (h : a.Sighted) (w : Written.Field) : (a.addField w).Sighted := by
  cases hi : a.innermost with
  | none =>
    rw [addField_outside (by rw [current?, ← Assembly.innermost, hi]; rfl)]
    exact ⟨h.stacked, h.classes⟩
  | some i =>
    obtain ⟨owner, howner⟩ := h.innermost hi
    obtain ⟨made, slots, hmade, heq⟩ := addField_inside hi howner w
    rw [heq]
    refine h.modify hi slots (fun _ => ⟨rfl, rfl⟩) fun c hc => hc.withField fun r hr => ?_
    obtain ⟨t, -, ht⟩ := hmade.holds.refs hr
    exact ht.sights

theorem Sighted.addMethod (h : a.Sighted) (w : Written.Method) : (a.addMethod w).Sighted := by
  cases hi : a.innermost with
  | none =>
    rw [addMethod_outside (by rw [current?, ← Assembly.innermost, hi]; rfl)]
    exact ⟨h.stacked, h.classes⟩
  | some i =>
    obtain ⟨owner, howner⟩ := h.innermost hi
    obtain ⟨made, slots, hmade, heq⟩ := addMethod_inside hi howner w
    rw [heq]
    refine h.modify hi slots (fun c => ?_) fun c hc => hc.withMethod fun r hr => ?_
    · unfold Class.withMethod
      split <;> exact ⟨rfl, rfl⟩
    · obtain ⟨t, -, ht⟩ := hmade.holds.refs hr
      rw [parameterNames_holds hmade.holds.typeParameters]
      exact ht.sights

theorem Sighted.step (h : a.Sighted) (e : Event) : (a.step e).Sighted := by
  -- What an event makes of the unit but not of its classes extends it.
  have hrest {u : SourceUnit} (hu : ∀ i, u.classAt? i = a.unit.classAt? i) (doc : _) (slots : Nat) :
      Sighted ⟨u, a.stack, a.typeScopes, doc, slots⟩ := by
    have hextends : Extends a.unit u := fun i c hc => ⟨c, (hu i).trans hc, rfl, rfl⟩
    refine ⟨hextends.stacked h.stacked, fun i c hc => ?_⟩
    obtain ⟨names, hsees, hsights⟩ := h.classes i c ((hu i).symm.trans hc)
    exact ⟨names, hextends.sees hsees, hsights⟩
  cases e with
  | beginClass c => exact h.beginClass c
  | beginField f => exact h.addField f
  | beginMethod m => exact h.addMethod m
  | endClass => exact ⟨h.stacked.tail, h.classes⟩
  | package p => exact hrest (u := (a.setPackage p).unit) (fun _ => rfl) _ _
  | imports i =>
    exact hrest (u := { a.unit with imports := a.unit.imports ++ [i] }) (fun _ => rfl) _ _
  | _ => exact ⟨h.stacked, h.classes⟩

/-- However many events, in whatever order. -/
theorem Sighted.foldl (h : a.Sighted) (es : List Event) : (es.foldl Assembly.step a).Sighted := by
  induction es generalizing a with
  | nil => exact h
  | cons e es ih => exact ih (h.step e)

/-- Whatever the events, the open classes and the frames of type parameters stay aligned: each frame
holds the names of the type parameters of its class. -/
theorem aligned_foldl (id : UnitId) (path : FilePath) (es : List Event) :
    let a := es.foldl Assembly.step (start id path)
    List.Forall₂ (fun i names => ∃ c, a.unit.classAt? i = some c ∧
      names = parameterNames c.typeParameters) a.stack a.typeScopes :=
  ((sighted_start id path).foldl es).stacked.aligned

end Assembly

namespace SourceUnit

/-- Whatever the events, a name in a reference of a class is a type variable exactly if it is not
that of a primitive type and is that of a type parameter of the class or of a class around it, or of
the method or constructor that the reference belongs to. -/
theorem typeVariables_ofEvents (id : UnitId) (path : FilePath) (es : List Event) (i : ClassIndex)
    (c : Class) (hc : (ofEvents id path es).classAt? i = some c) :
    ∃ around, (ofEvents id path es).Outward (some i) around ∧
      (∀ r ∈ c.headRefs ++ c.fields.flatMap SitedRef.ofField, ∀ q ∈ r.ref.spread,
        (q.isVariable ↔ ¬ Name.isPrimitive q.name ∧
          ∃ d ∈ around, ∃ p ∈ d.typeParameters, p.name = q.name)) ∧
      ∀ m ∈ c.constructors ++ c.methods, ∀ r ∈ SitedRef.ofMethod m, ∀ q ∈ r.ref.spread,
        (q.isVariable ↔ ¬ Name.isPrimitive q.name ∧
          ((∃ p ∈ m.typeParameters, p.name = q.name) ∨
            ∃ d ∈ around, ∃ p ∈ d.typeParameters, p.name = q.name)) := by
  obtain ⟨names, hsees, hsights⟩ :=
    ((Assembly.sighted_start id path).foldl es).classes i c hc
  obtain ⟨around, houtward, rfl⟩ := hsees.outward
  refine ⟨around, houtward, fun r hr q hq => ?_, fun m hm r hr q hq => ?_⟩
  · have hsight : r.ref.Sights (around.flatMap fun d => parameterNames d.typeParameters) := by
      rcases List.mem_append.mp hr with hr | hr
      · exact hsights.head r hr
      · obtain ⟨f, hf, hr⟩ := List.mem_flatMap.mp hr
        exact hsights.fields f hf r hr
    simpa [parameterNames] using hsight q hq
  · simpa [parameterNames] using hsights.methods m hm r hr q hq

/-- Inside two generic classes, their type parameters and that of a method are variables in the head
of the method; those of the method beside it and of a class beside the inner one are not. -/
theorem typeVariables_ofEvents_nested :
    let text := "class A<T> \x7b class B<U> \x7b <V> void f(M<T, U[], V, W, X, int> p) \x7b\x7d " ++
      "<W> void g() \x7b\x7d \x7d class C<X> \x7b\x7d \x7d"
    let u := ofEvents ⟨0⟩ ⟨"A.java"⟩ (parse text).events
    ∃ c, u.classAt? ⟨1⟩ = some c ∧
      (∃ around, u.Outward (some ⟨1⟩) around ∧
        ∀ m ∈ c.constructors ++ c.methods, ∀ r ∈ SitedRef.ofMethod m, ∀ q ∈ r.ref.spread,
          (q.isVariable ↔ ¬ Name.isPrimitive q.name ∧
            ((∃ p ∈ m.typeParameters, p.name = q.name) ∨
              ∃ d ∈ around, ∃ p ∈ d.typeParameters, p.name = q.name))) ∧
      (c.typeRefs.flatMap (·.ref.spread)).map (fun q => (q.name, q.isVariable)) =
        [("void", false), ("M", false), ("int", false), ("X", false), ("W", false), ("V", true),
          ("U", true), ("T", true), ("void", false)] := by
  intro text u
  have hflags : ∀ c ∈ u.classAt? ⟨1⟩,
      (c.typeRefs.flatMap (·.ref.spread)).map (fun q => (q.name, q.isVariable)) =
        [("void", false), ("M", false), ("int", false), ("X", false), ("W", false), ("V", true),
          ("U", true), ("T", true), ("void", false)] := by
    decide +kernel
  have hsome : (u.classAt? ⟨1⟩).isSome := by decide +kernel
  obtain ⟨c, hc⟩ := Option.isSome_iff_exists.mp hsome
  obtain ⟨around, houtward, -, hmethods⟩ :=
    typeVariables_ofEvents ⟨0⟩ ⟨"A.java"⟩ (parse text).events ⟨1⟩ c hc
  exact ⟨c, hc, ⟨around, houtward, hmethods⟩, hflags c hc⟩

end SourceUnit

end JavaModel
