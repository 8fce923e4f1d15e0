import JavaModel.Proofs.Event.Nesting
import JavaModel.Proofs.Grammar.PackageNames
import JavaModel.Proofs.Model.Arena
import JavaModel.Proofs.Name

/-! What a unit holds of the text it was read from. `SourceUnit.Contains` says by the events alone
which declarations a unit has, in which order, where, and with which comments; `parse_contents` says
that a text that follows the grammar gives a unit which contains its events. The assembly keeps in
step with the events by `Gathers`, to which the protocol adds that the pending comment is the event
before, and that the package comes first. -/

namespace JavaModel

/-! ### Contents -/

/-- A reference that was written as a type. -/
def TypeRef.Writes (t : TypeExpr) (r : TypeRef) : Prop := r.written = t

/-- A class is the one that was told: the head, the class around it and the comment before it. -/
structure Class.Is (t : Told Written.Class) (c : Class) : Prop where
  holds : Class.Holds TypeRef.Writes t.decl c
  enclosing : c.enclosing = t.inside
  doc : c.doc = t.comment

/-- A field is the one that was told, with the comment before it. -/
structure Field.Is (t : Told Written.Field) (f : Field) : Prop where
  holds : Field.Holds TypeRef.Writes t.decl f
  doc : f.doc = t.comment

/-- A method or a constructor is the one that was told, with the comment before it. -/
structure Method.Is (t : Told Written.Method) (m : Method) : Prop where
  holds : Method.Holds TypeRef.Writes t.decl m
  doc : m.doc = t.comment

/-- A class has the members told directly inside it, each kind in the order told. -/
structure Class.Collects (es : List Event) (i : ClassIndex) (c : Class) : Prop where
  fields : List.Forall₂ Field.Is (toldIn i Event.field? es) c.fields
  constructors : List.Forall₂ Method.Is (toldIn i Event.constructor? es) c.constructors
  methods : List.Forall₂ Method.Is (toldIn i Event.ordinaryMethod? es) c.methods

/-- A unit has the package and the imports that events tell. -/
structure SourceUnit.Heads (es : List Event) (u : SourceUnit) : Prop where
  package : u.package.toList = (told Event.package? es).map (·.decl.name)
  packageDoc : u.packageDoc.toList = (told Event.package? es).filterMap (·.comment)
  packageAnnotations : List.Forall₂ (AnnotationUse.Holds TypeRef.Writes)
    ((told Event.package? es).flatMap (·.decl.annotations)) u.packageAnnotations
  imports : u.imports = es.filterMap Event.import?

/-- A unit contains what events tell, and nothing else. -/
structure SourceUnit.Contains (u : SourceUnit) (es : List Event) : Prop where
  heads : u.Heads es
  classes : List.Forall₂ Class.Is (told Event.class? es) u.classes
  members : ∀ i c, u.classAt? i = some c → c.Collects es i
  /-- Every member stands in some class of the unit. -/
  placed : ∀ before e, (before, e) ∈ tellings es → e.beginsMember →
    ∃ i, innermost? before = some i ∧ (u.classAt? i).isSome
  /-- The full name of a class names the package, the classes around it and the class. -/
  fullName : ∀ c ∈ u.classes, c.fullName = Name.ofSegments
    (u.package.toList ++ (u.scopeFrom c.enclosing).reverse.map (·.name) ++ [c.name])

/-- A class of the unit is told where it stands. -/
theorem SourceUnit.Contains.told_class {u : SourceUnit} {es : List Event} (h : u.Contains es)
    {n : Nat} {c : Class} (hn : u.classes[n]? = some c) :
    ∃ t, (told Event.class? es)[n]? = some t ∧ c.Is t := by
  obtain ⟨hlt, rfl⟩ := List.getElem?_eq_some_iff.mp hn
  have htold : n < (told Event.class? es).length := h.classes.length_eq ▸ hlt
  exact ⟨_, List.getElem?_eq_getElem htold, h.classes.get htold hlt⟩

theorem Assembly.Scope.Refers.writes {s : Scope} (t : TypeExpr) (r : TypeRef)
    (h : s.Refers t r) : r.Writes t := h.written

/-- What has a return type was written with one. -/
theorem Method.Holds.isConstructor {R : TypeExpr → TypeRef → Prop} {w : Written.Method} {m : Method}
    (h : m.Holds R w) : m.isConstructor = w.isConstructor := by
  have hlength := h.returnType.length_eq
  unfold Method.isConstructor Written.Method.isConstructor
  cases hm : m.returnType <;> cases hw : w.returnType <;> simp_all

/-! ### Classes as members come -/

namespace Class

variable {es : List Event} {e : Event} {i : ClassIndex} {c : Class} {t : Told Written.Class}

theorem Is.nest (h : c.Is t) (inner : ClassIndex) : (c.nest inner).Is t :=
  ⟨⟨h.holds.name, h.holds.kind, h.holds.modifiers, h.holds.typeParameters, h.holds.superclass,
    h.holds.interfaces, h.holds.permitting, h.holds.annotations, h.holds.line⟩, h.enclosing, h.doc⟩

theorem Is.withField (h : c.Is t) (f : Field) : (c.withField f).Is t :=
  ⟨⟨h.holds.name, h.holds.kind, h.holds.modifiers, h.holds.typeParameters, h.holds.superclass,
    h.holds.interfaces, h.holds.permitting, h.holds.annotations, h.holds.line⟩, h.enclosing, h.doc⟩

theorem Is.withMethod (h : c.Is t) (m : Method) : (c.withMethod m).Is t := by
  unfold Class.withMethod
  split <;> exact ⟨⟨h.holds.name, h.holds.kind, h.holds.modifiers, h.holds.typeParameters,
    h.holds.superclass, h.holds.interfaces, h.holds.permitting, h.holds.annotations,
    h.holds.line⟩, h.enclosing, h.doc⟩

theorem Collects.nest (h : c.Collects es i) (inner : ClassIndex) : (c.nest inner).Collects es i :=
  ⟨h.fields, h.constructors, h.methods⟩

/-- An event that begins no member leaves a class with the members it has. -/
theorem Collects.concat (h : c.Collects es i) (he : e.beginsMember = false) :
    c.Collects (es ++ [e]) i := by
  have hfield : e.field? = none := by cases e <;> first | rfl | cases he
  have hmethod : e.method? = none := by cases e <;> first | rfl | cases he
  refine ⟨?_, ?_, ?_⟩
  · rw [toldIn_concat_none hfield]
    exact h.fields
  · rw [toldIn_concat_none (by rw [Event.constructor?, hmethod]; rfl)]
    exact h.constructors
  · rw [toldIn_concat_none (by rw [Event.ordinaryMethod?, hmethod]; rfl)]
    exact h.methods

/-- A member of another class leaves a class with the members it has. -/
theorem Collects.outside (h : c.Collects es i) (hi : innermost? es ≠ some i) (e : Event) :
    c.Collects (es ++ [e]) i := by
  refine ⟨?_, ?_, ?_⟩
  · rw [toldIn_concat_outside hi]
    exact h.fields
  · rw [toldIn_concat_outside hi]
    exact h.constructors
  · rw [toldIn_concat_outside hi]
    exact h.methods

theorem Collects.withField (h : c.Collects es i) (hi : innermost? es = some i) {w : Written.Field}
    {f : Field} (hf : f.Is ⟨w, innermost? es, commentBehind es⟩) :
    (c.withField f).Collects (es ++ [.beginField w]) i := by
  refine ⟨?_, ?_, ?_⟩
  · rw [toldIn_concat_inside (d := w) rfl hi]
    exact List.rel_append h.fields (.cons hf .nil)
  · rw [toldIn_concat_none rfl]
    exact h.constructors
  · rw [toldIn_concat_none rfl]
    exact h.methods

theorem Collects.withMethod (h : c.Collects es i) (hi : innermost? es = some i)
    {w : Written.Method} {m : Method} (hm : m.Is ⟨w, innermost? es, commentBehind es⟩) :
    (c.withMethod m).Collects (es ++ [.beginMethod w]) i := by
  have hfields :
      List.Forall₂ Field.Is (toldIn i Event.field? (es ++ [.beginMethod w])) c.fields := by
    rw [toldIn_concat_none rfl]
    exact h.fields
  unfold Class.withMethod
  rw [hm.holds.isConstructor]
  cases hkind : w.isConstructor with
  | true =>
    have hpick : Event.constructor? (.beginMethod w) = some w :=
      Option.filter_eq_some_iff.mpr ⟨rfl, hkind⟩
    refine ⟨hfields, ?_, ?_⟩
    · rw [toldIn_concat_inside hpick hi]
      exact List.rel_append h.constructors (.cons hm .nil)
    · rw [toldIn_concat_none (by simp [Event.ordinaryMethod?, Event.method?, hkind])]
      exact h.methods
  | false =>
    have hpick : Event.ordinaryMethod? (.beginMethod w) = some w := by
      simp [Event.ordinaryMethod?, Event.method?, hkind]
    refine ⟨hfields, ?_, ?_⟩
    · rw [toldIn_concat_none (by simp [Event.constructor?, Event.method?, hkind])]
      exact h.constructors
    · rw [toldIn_concat_inside hpick hi]
      exact List.rel_append h.methods (.cons hm .nil)

/-- A class that begins has no members. -/
theorem collects_next (hi : classesBegun es ≤ i.number) (hfields : c.fields = [])
    (hconstructors : c.constructors = []) (hmethods : c.methods = []) : c.Collects es i := by
  refine ⟨?_, ?_, ?_⟩
  · rw [toldIn_next hi, hfields]
    exact .nil
  · rw [toldIn_next hi, hconstructors]
    exact .nil
  · rw [toldIn_next hi, hmethods]
    exact .nil

end Class

/-! ### Events as they come -/

namespace SourceUnit

variable {u v : SourceUnit} {es : List Event} {e : Event}

/-- The units have the same package and the same imports. -/
structure SameHead (u v : SourceUnit) : Prop where
  package : v.package = u.package
  packageDoc : v.packageDoc = u.packageDoc
  packageAnnotations : v.packageAnnotations = u.packageAnnotations
  imports : v.imports = u.imports

theorem sameHead_hang (u : SourceUnit) (c : Class) : u.SameHead (u.hang c) := by
  cases henclosing : c.enclosing with
  | none =>
    rw [hang_none henclosing]
    exact ⟨rfl, rfl, rfl, rfl⟩
  | some o =>
    rw [hang_some henclosing]
    exact ⟨rfl, rfl, rfl, rfl⟩

theorem Heads.concat (h : u.Heads es) (hsame : u.SameHead v) (hpackage : e.package? = none)
    (himport : e.import? = none) : v.Heads (es ++ [e]) := by
  refine ⟨?_, ?_, ?_, ?_⟩
  · rw [told_concat_none hpackage, hsame.package, h.package]
  · rw [told_concat_none hpackage, hsame.packageDoc, h.packageDoc]
  · rw [told_concat_none hpackage, hsame.packageAnnotations]
    exact h.packageAnnotations
  · simp [hsame.imports, h.imports, himport]

theorem placed_concat {P : List Event → Prop}
    (h : ∀ before f, (before, f) ∈ tellings es → f.beginsMember → P before)
    (he : e.beginsMember → P es) :
    ∀ before f, (before, f) ∈ tellings (es ++ [e]) → f.beginsMember → P before := by
  intro before f hf hmember
  rw [tellings_concat, List.mem_append, List.mem_singleton] at hf
  rcases hf with hf | hf
  · exact h before f hf hmember
  · obtain ⟨rfl, rfl⟩ := Prod.mk.inj hf
    exact he hmember

end SourceUnit

namespace Assembly

variable {a : Assembly} {es : List Event} {e : Event}

/-- An assembly has gathered what events tell. -/
structure Gathers (a : Assembly) (es : List Event) : Prop where
  orderly : a.Orderly
  opened : ∀ n, a.stack[n]? = openBack n es.reverse
  heads : a.unit.Heads es
  classes : List.Forall₂ Class.Is (told Event.class? es) a.unit.classes
  members : ∀ i c, a.unit.classAt? i = some c → c.Collects es i
  placed : ∀ before f, (before, f) ∈ tellings es → f.beginsMember →
    ∃ i, innermost? before = some i ∧ i.number < a.unit.classes.length
  outermost : ∀ c ∈ a.unit.classes, c.enclosing = none →
    c.fullName = Name.join a.unit.package c.name

theorem Gathers.innermost (h : a.Gathers es) : a.innermost = innermost? es := by
  rw [innermost?, ← h.opened 0, Assembly.innermost]
  exact List.head?_eq_getElem?

/-- There are as many classes as have begun. -/
theorem Gathers.length (h : a.Gathers es) : a.unit.classes.length = classesBegun es := by
  rw [← h.classes.length_eq, length_told_class]

theorem openBack_concat {stack : List ClassIndex} (h : ∀ n, stack[n]? = openBack n es.reverse)
    (hbegins : e.beginsClass = false) (hends : e.endsClass = false) (n : Nat) :
    stack[n]? = openBack n (es ++ [e]).reverse := by
  rw [List.reverse_concat, openBack_cons hbegins hends, h]

/-- An event that leaves the classes as they are. -/
theorem Gathers.sameClasses (h : a.Gathers es) {b : Assembly} (horderly : b.Orderly)
    (hopened : ∀ n, b.stack[n]? = openBack n (es ++ [e]).reverse)
    (hheads : b.unit.Heads (es ++ [e])) (hclasses : b.unit.classes = a.unit.classes)
    (hclass : e.class? = none) (hmember : e.beginsMember = false)
    (houtermost : ∀ c ∈ a.unit.classes, c.enclosing = none →
      c.fullName = Name.join b.unit.package c.name) : b.Gathers (es ++ [e]) := by
  refine
    { orderly := horderly
      opened := hopened
      heads := hheads
      classes := ?_
      members := fun i c hc => ?_
      placed := ?_
      outermost := by rwa [hclasses] }
  · rw [told_concat_none hclass, hclasses]
    exact h.classes
  · refine (h.members i c ?_).concat hmember
    rw [← hc, SourceUnit.classAt?, SourceUnit.classAt?, hclasses]
  · rw [hclasses]
    exact SourceUnit.placed_concat h.placed fun he => by rw [hmember] at he; cases he

/-- An event that leaves the unit as it is. -/
theorem Gathers.sameUnit (h : a.Gathers es) {b : Assembly} (horderly : b.Orderly)
    (hopened : ∀ n, b.stack[n]? = openBack n (es ++ [e]).reverse)
    (hunit : b.unit = a.unit) (hclass : e.class? = none) (hmember : e.beginsMember = false)
    (hpackage : e.package? = none) (himport : e.import? = none) : b.Gathers (es ++ [e]) := by
  have hsame : a.unit.SameHead b.unit := by
    rw [hunit]
    exact ⟨rfl, rfl, rfl, rfl⟩
  refine h.sameClasses horderly hopened (h.heads.concat hsame hpackage himport)
    (by rw [hunit]) hclass hmember ?_
  rw [hunit]
  exact h.outermost

theorem Gathers.imports (h : a.Gathers es) (i : Import) :
    (a.step (.imports i)).Gathers (es ++ [.imports i]) := by
  refine h.sameClasses (h.orderly.step _) (openBack_concat h.opened rfl rfl) ?_ rfl rfl rfl
    h.outermost
  refine ⟨?_, ?_, ?_, ?_⟩
  · rw [told_concat_none rfl]
    exact h.heads.package
  · rw [told_concat_none rfl]
    exact h.heads.packageDoc
  · rw [told_concat_none rfl]
    exact h.heads.packageAnnotations
  · rw [List.filterMap_append, ← h.heads.imports]
    rfl

/-- A package is told first of all. -/
theorem Gathers.package (h : a.Gathers es) (p : Written.Package)
    (hdoc : a.docFor .onPackage = commentBehind es) (hfirst : ∀ q, .package q ∉ es)
    (hclasses : classesBegun es = 0) : (a.step (.package p)).Gathers (es ++ [.package p]) := by
  have hnone : told Event.package? es = [] := by
    refine told_eq_nil fun e he => ?_
    cases e with
    | package q => exact absurd he (hfirst q)
    | _ => rfl
  have hempty : a.unit.classes = [] := List.eq_nil_of_length_eq_zero (h.length.trans hclasses)
  refine h.sameClasses (h.orderly.step _) (openBack_concat h.opened rfl rfl) ?_ rfl rfl rfl ?_
  · refine ⟨?_, ?_, ?_, ?_⟩
    · rw [told_concat_some (d := p) rfl, hnone]
      rfl
    · rw [told_concat_some (d := p) rfl, hnone]
      change (a.docFor .onPackage).toList = _
      rw [hdoc]
      cases commentBehind es <;> rfl
    · rw [told_concat_some (d := p) rfl, hnone]
      simp only [List.nil_append, List.flatMap_cons, List.flatMap_nil, List.append_nil]
      exact (referAnnotations_holds a.scope p.annotations a.slots).imp
        fun _ _ => AnnotationUse.Holds.mono Scope.Refers.writes
    · rw [List.filterMap_append, ← h.heads.imports]
      exact (List.append_nil _).symm
  · rw [hempty]
    intro c hc
    cases hc

/-- A class that changes stays the one that it is. -/
theorem forall₂_modify {α β : Type} {P : α → β → Prop} {as : List α} {bs : List β} {f : β → β}
    (h : List.Forall₂ P as bs) (hf : ∀ a b, P a b → P a (f b)) (n : Nat) :
    List.Forall₂ P as (bs.modify n f) := by
  induction h generalizing n with
  | nil => cases n <;> exact .nil
  | cons hab htail ih =>
    cases n with
    | zero => exact .cons (hf _ _ hab) htail
    | succ n => exact .cons hab (ih n)

theorem mem_modify {α : Type} {as : List α} {f : α → α} {n : Nat} {x : α} (h : x ∈ as.modify n f) :
    ∃ a ∈ as, x = a ∨ x = f a := by
  obtain ⟨m, hm⟩ := List.mem_iff_getElem?.mp h
  rw [List.getElem?_modify] at hm
  obtain ⟨a, ha, rfl⟩ := Option.map_eq_some_iff.mp hm
  refine ⟨a, List.mem_of_getElem? ha, ?_⟩
  split
  · exact .inr rfl
  · exact .inl rfl

/-- A member goes to the class innermost open. -/
theorem Gathers.modify (h : a.Gathers es) {i : ClassIndex} (hi : a.innermost = some i)
    {f : Class → Class} {slots : Nat}
    (horderly : Orderly { a with unit := modifyClass a.unit i f, pendingDoc := none, slots })
    (hmember : e.beginsMember) (hsame : ∀ c, SourceUnit.SameLinks c (f c))
    (his : ∀ t (c : Class), c.Is t → (f c).Is t)
    (hcollects : ∀ c, a.unit.classAt? i = some c → (f c).Collects (es ++ [e]) i) :
    Gathers { a with unit := modifyClass a.unit i f, pendingDoc := none, slots } (es ++ [e]) := by
  have hbegins : e.beginsClass = false := by cases e <;> first | rfl | cases hmember
  have hends : e.endsClass = false := by cases e <;> first | rfl | cases hmember
  have hclass : e.class? = none := by cases e <;> first | rfl | cases hmember
  have hpackage : e.package? = none := by cases e <;> first | rfl | cases hmember
  have himport : e.import? = none := by cases e <;> first | rfl | cases hmember
  have hlength : (modifyClass a.unit i f).classes.length = a.unit.classes.length :=
    List.length_modify ..
  refine
    { orderly := horderly
      opened := openBack_concat h.opened hbegins hends
      heads := h.heads.concat ⟨rfl, rfl, rfl, rfl⟩ hpackage himport
      classes := ?_
      members := fun j c hc => ?_
      placed := ?_
      outermost := fun c hc hnone => ?_ }
  · rw [told_concat_none hclass]
    exact forall₂_modify h.classes his i.number
  · change (modifyClass a.unit i f).classAt? j = some c at hc
    rw [SourceUnit.classAt?_modifyClass] at hc
    obtain ⟨b, hb, rfl⟩ := Option.map_eq_some_iff.mp hc
    split
    · rename_i hj
      subst hj
      exact hcollects b hb
    · rename_i hj
      refine (h.members j b hb).outside (fun hother => hj ?_) e
      rw [← h.innermost, hi] at hother
      exact (Option.some.inj hother).symm
  · change ∀ before f', _ → _ → ∃ j, innermost? before = some j ∧
      j.number < (modifyClass a.unit i f).classes.length
    rw [hlength]
    refine SourceUnit.placed_concat h.placed fun _ => ⟨i, h.innermost.symm.trans hi, ?_⟩
    obtain ⟨c, hc, _⟩ := h.orderly.current hi
    exact (List.getElem?_eq_some_iff.mp hc).1
  · obtain ⟨b, hb, rfl | rfl⟩ := mem_modify hc
    · exact h.outermost c hb hnone
    · rw [(hsame b).fullName, (hsame b).name]
      exact h.outermost b hb ((hsame b).enclosing.symm.trans hnone)

theorem Gathers.field (h : a.Gathers es) (w : Written.Field)
    (hdoc : a.docFor (.onField w.name) = commentBehind es) {i : ClassIndex}
    (hi : a.innermost = some i) : (a.step (.beginField w)).Gathers (es ++ [.beginField w]) := by
  obtain ⟨owner, howner, _⟩ := h.orderly.current hi
  obtain ⟨made, slots, hmade, heq⟩ := addField_inside hi howner w
  have horderly := h.orderly.step (.beginField w)
  have hstep : a.step (.beginField w) = a.addField w := rfl
  rw [hstep, heq] at horderly ⊢
  refine h.modify hi horderly rfl (fun _ => ⟨rfl, rfl, rfl, rfl⟩) (fun _ _ hc => hc.withField made)
    fun c hc => ?_
  exact (h.members i c hc).withField (h.innermost.symm.trans hi)
    ⟨hmade.holds.mono Scope.Refers.writes, hmade.doc.trans hdoc⟩

theorem Gathers.method (h : a.Gathers es) (w : Written.Method)
    (hdoc : a.docFor w.target = commentBehind es) {i : ClassIndex} (hi : a.innermost = some i) :
    (a.step (.beginMethod w)).Gathers (es ++ [.beginMethod w]) := by
  obtain ⟨owner, howner, _⟩ := h.orderly.current hi
  obtain ⟨made, slots, hmade, heq⟩ := addMethod_inside hi howner w
  have horderly := h.orderly.step (.beginMethod w)
  have hstep : a.step (.beginMethod w) = a.addMethod w := rfl
  rw [hstep, heq] at horderly ⊢
  refine h.modify hi horderly rfl (SourceUnit.sameLinks_withMethod made)
    (fun _ _ hc => hc.withMethod made) fun c hc => ?_
  exact (h.members i c hc).withMethod (h.innermost.symm.trans hi)
    ⟨hmade.holds.mono Scope.Refers.writes, hmade.doc.trans hdoc⟩

theorem Gathers.beginClass (h : a.Gathers es) (w : Written.Class)
    (hdoc : a.docFor (.onClass w.name) = commentBehind es) :
    (a.step (.beginClass w)).Gathers (es ++ [.beginClass w]) := by
  obtain ⟨made, slots, hmade, heq⟩ := a.beginClass_spec w
  have horderly := h.orderly.step (.beginClass w)
  have hstep : a.step (.beginClass w) = a.beginClass w := rfl
  rw [hstep, heq] at horderly ⊢
  have hlookup := SourceUnit.classAt?_hang (u := a.unit) (c := made) fun j hj => by
    obtain ⟨o, ho, _⟩ := h.orderly.current (hmade.enclosing.symm.trans hj)
    rw [ho]
    rfl
  have hsame := SourceUnit.sameHead_hang a.unit made
  refine
    { orderly := horderly
      opened := fun n => ?_
      heads := h.heads.concat hsame rfl rfl
      classes := ?_
      members := fun i c hc => ?_
      placed := ?_
      outermost := fun c hc hnone => ?_ }
  · rw [List.reverse_concat]
    cases n with
    | zero =>
      rw [openBack_beginClass, classesBegun, List.countP_reverse, ← classesBegun, ← h.length]
      rfl
    | succ n => exact h.opened n
  · have hall : List.Forall₂ Class.Is (told Event.class? (es ++ [.beginClass w]))
        (a.unit.classes ++ [made]) := by
      rw [told_concat_some (d := w) rfl]
      exact List.rel_append h.classes (.cons ⟨hmade.holds.mono Scope.Refers.writes,
        hmade.enclosing.trans h.innermost, hmade.doc.trans hdoc⟩ .nil)
    cases henclosing : made.enclosing with
    | none =>
      rw [SourceUnit.hang_none henclosing]
      exact hall
    | some o =>
      rw [SourceUnit.hang_some henclosing]
      exact forall₂_modify hall (fun _ _ hc => hc.nest _) o.number
  · rw [hlookup] at hc
    split at hc
    · rename_i hi
      obtain rfl := Option.some.inj hc
      refine (Class.collects_next ?_ hmade.fields hmade.constructors hmade.methods).concat rfl
      rw [hi, h.length]
    · obtain ⟨b, hb, rfl⟩ := Option.map_eq_some_iff.mp hc
      have hold := (h.members i b hb).concat (e := .beginClass w) rfl
      unfold SourceUnit.besides
      split
      · exact hold.nest _
      · exact hold
  · refine SourceUnit.placed_concat (fun before f hf hmember => ?_) fun hmember => by cases hmember
    obtain ⟨i, hi, hlt⟩ := h.placed before f hf hmember
    refine ⟨i, hi, ?_⟩
    change i.number < (a.unit.hang made).classes.length
    rw [SourceUnit.length_hang]
    exact Nat.lt_succ_of_lt hlt
  · change c.fullName = Name.join (a.unit.hang made).package c.name
    obtain ⟨n, hn⟩ := List.mem_iff_getElem?.mp hc
    have hplace := (hlookup ⟨n⟩).symm.trans hn
    rw [hsame.package]
    split at hplace
    · obtain rfl := Option.some.inj hplace
      have hcurrent : a.current? = none := by
        rw [current?, ← Assembly.innermost, ← hmade.enclosing, hnone]
        rfl
      rw [hmade.fullName, hmade.holds.name]
      simp only [nextFullName, hcurrent]
    · obtain ⟨b, hb, rfl⟩ := Option.map_eq_some_iff.mp hplace
      obtain ⟨hfull, hname, henclosing⟩ := a.unit.besides_fullName made ⟨n⟩ b
      rw [hfull, hname]
      exact h.outermost b (List.mem_of_getElem? hb) (henclosing.symm.trans hnone)

/-! ### Events by the protocol -/

/-- An assembly has heard the events that led to a stage. -/
structure Attends (t : Telling) (es : List Event) (a : Assembly) : Prop where
  gathers : a.Gathers es
  recalls : t.Recalls es
  depth : a.stack.length = t.depth
  /-- A comment is pending just behind it. -/
  pending : a.pendingDoc.map Prod.fst = commentBehind es
  /-- A comment that is pending is that of the declaration due next. -/
  due : ∀ text target, a.pendingDoc = some (text, target) → t.due = .declaration target

variable {t u : Telling}

/-- A declaration that may begin takes the comment just before it. -/
theorem Attends.docFor (h : Attends t es a) {target : DocTarget} (hadmits : t.due.admits target) :
    a.docFor target = commentBehind es := by
  rw [← h.pending]
  cases hpending : a.pendingDoc with
  | none => simp [Assembly.docFor, hpending]
  | some pending =>
    obtain ⟨text, named⟩ := pending
    have htarget : named = target := by
      simpa [Due.admits, h.due text named hpending] using hadmits
    simp [Assembly.docFor, hpending, htarget]

/-- Where no declaration is due, no comment is pending. -/
theorem Attends.idle (h : Attends t es a) (hdue : ∀ target, t.due ≠ .declaration target) :
    a.pendingDoc = none := by
  cases hpending : a.pendingDoc with
  | none => rfl
  | some pending => exact absurd (h.due pending.1 pending.2 hpending) (hdue pending.2)

/-- Inside a class there is an innermost one. -/
theorem Attends.inside (h : Attends t es a) (hdepth : 0 < t.depth) :
    ∃ i, a.innermost = some i := by
  rw [← h.depth] at hdepth
  obtain ⟨i, rest, hstack⟩ := List.exists_cons_of_length_pos hdepth
  exact ⟨i, by rw [innermost, hstack]; rfl⟩

theorem addField_keeps (a : Assembly) (w : Written.Field) :
    (a.addField w).stack = a.stack ∧ (a.addField w).pendingDoc = none := by
  unfold addField
  dsimp only
  split <;> exact ⟨rfl, rfl⟩

theorem addMethod_keeps (a : Assembly) (w : Written.Method) :
    (a.addMethod w).stack = a.stack ∧ (a.addMethod w).pendingDoc = none := by
  unfold addMethod
  dsimp only
  split <;> exact ⟨rfl, rfl⟩

/-- An event that leaves no comment behind. -/
theorem Attends.silent (h : Attends t es a) (he : t.after? e = some u)
    (hgathers : (a.step e).Gathers (es ++ [e])) (hdepth : (a.step e).stack.length = u.depth)
    (hpending : (a.step e).pendingDoc = none) (hcomment : commentBehind (es ++ [e]) = none) :
    Attends u (es ++ [e]) (a.step e) :=
  ⟨hgathers, h.recalls.step he, hdepth, by rw [hpending, hcomment]; rfl,
    fun _ _ hsome => by rw [hpending] at hsome; cases hsome⟩

theorem Attends.step (h : Attends t es a) (he : t.after? e = some u) :
    Attends u (es ++ [e]) (a.step e) := by
  have hquiet (hunit : (a.step e).unit = a.unit) (hopened : (a.step e).stack = a.stack)
      (hbegins : e.beginsClass = false) (hends : e.endsClass = false) (hclass : e.class? = none)
      (hmember : e.beginsMember = false) (hpackage : e.package? = none)
      (himport : e.import? = none) : (a.step e).Gathers (es ++ [e]) := by
    refine h.gathers.sameUnit (h.gathers.orderly.step e) ?_ hunit hclass hmember hpackage himport
    rw [hopened]
    exact openBack_concat h.gathers.opened hbegins hends
  obtain ⟨rfl, rfl, rfl⟩ | ⟨hopen, _, hin⟩ := Telling.after?_cases he
  · exact h.silent he (hquiet rfl rfl rfl rfl rfl rfl rfl rfl) h.depth
      (h.idle fun _ hdue => by cases hdue) (by simp [commentBehind])
  · cases e with
    | beginSource => cases hin
    | package p =>
      obtain ⟨hp, ⟨⟩⟩ := Option.ite_none_right_eq_some.mp hin
      -- Nothing but the beginning of the unit stands before a package.
      have hrank (f : Event) (hf : f ∈ es) : f.rank ≤ 1 := by
        have := h.recalls.rank f hf
        rwa [hp.1] at this
      have hfirst (q : Written.Package) : .package q ∉ es := fun hq => absurd (hrank _ hq)
        (by simp [Event.rank, Phase.rank])
      have hnone : classesBegun es = 0 := by
        refine List.countP_eq_zero.mpr fun f hf hbegins => ?_
        have := hrank f hf
        cases f <;> cases hbegins
        simp [Event.rank, Phase.rank] at this
      exact h.silent he (h.gathers.package p (h.docFor hp.2) hfirst hnone) h.depth rfl
        (by simp [commentBehind])
    | imports i =>
      obtain ⟨hi, ⟨⟩⟩ := Option.ite_none_right_eq_some.mp hin
      exact h.silent he (h.gathers.imports i) h.depth (h.idle fun _ hdue => by simp [hi.2] at hdue)
        (by simp [commentBehind])
    | doc text target =>
      obtain ⟨_, ⟨⟩⟩ := Option.ite_none_right_eq_some.mp hin
      refine ⟨hquiet rfl rfl rfl rfl rfl rfl rfl rfl, h.recalls.step he, h.depth,
        by simp [commentBehind, Assembly.step], fun _ _ hsome => ?_⟩
      cases hsome
      rfl
    | beginClass c =>
      obtain ⟨hc, ⟨⟩⟩ := Option.ite_none_right_eq_some.mp hin
      refine h.silent he (h.gathers.beginClass c (h.docFor hc)) ?_ rfl (by simp [commentBehind])
      change a.stack.length + 1 = t.depth + 1
      rw [h.depth]
    | endClass =>
      obtain ⟨hend, ⟨⟩⟩ := Option.ite_none_right_eq_some.mp hin
      refine h.silent he ?_ ?_ (h.idle fun _ hdue => by simp [hend.2] at hdue)
        (by simp [commentBehind])
      · refine h.gathers.sameUnit (h.gathers.orderly.step _) (fun n => ?_) rfl rfl rfl rfl rfl
        rw [List.reverse_concat, openBack_endClass, ← h.gathers.opened]
        simp [Assembly.step]
      · change a.stack.tail.length = t.depth - 1
        rw [List.length_tail, h.depth]
    | beginField f =>
      obtain ⟨hf, ⟨⟩⟩ := Option.ite_none_right_eq_some.mp hin
      obtain ⟨i, hi⟩ := h.inside hf.1
      refine h.silent he (h.gathers.field f (h.docFor hf.2) hi) ?_ (a.addField_keeps f).2
        (by simp [commentBehind])
      change (a.addField f).stack.length = t.depth
      rw [(a.addField_keeps f).1, h.depth]
    | endField =>
      obtain ⟨hend, ⟨⟩⟩ := Option.ite_none_right_eq_some.mp hin
      exact h.silent he (hquiet rfl rfl rfl rfl rfl rfl rfl rfl) h.depth
        (h.idle fun _ hdue => by simp [hend] at hdue) (by simp [commentBehind])
    | beginMethod m =>
      obtain ⟨hm, ⟨⟩⟩ := Option.ite_none_right_eq_some.mp hin
      obtain ⟨i, hi⟩ := h.inside hm.1
      refine h.silent he (h.gathers.method m (h.docFor hm.2) hi) ?_ (a.addMethod_keeps m).2
        (by simp [commentBehind])
      change (a.addMethod m).stack.length = t.depth
      rw [(a.addMethod_keeps m).1, h.depth]
    | endMethod =>
      obtain ⟨hend, ⟨⟩⟩ := Option.ite_none_right_eq_some.mp hin
      exact h.silent he (hquiet rfl rfl rfl rfl rfl rfl rfl rfl) h.depth
        (h.idle fun _ hdue => by simp [hend] at hdue) (by simp [commentBehind])
    | endSource =>
      obtain ⟨hend, ⟨⟩⟩ := Option.ite_none_right_eq_some.mp hin
      exact h.silent he (hquiet rfl rfl rfl rfl rfl rfl rfl rfl) (h.depth.trans hend.1) rfl
        (by simp [commentBehind])

/-- However many events the protocol allows. -/
theorem Attends.foldl (h : Attends t es a) {fs : List Event} (hrun : t.run fs = some u) :
    Attends u (es ++ fs) (fs.foldl Assembly.step a) := by
  induction fs generalizing t es a with
  | nil =>
    obtain rfl : t = u := by simpa using hrun
    simpa using h
  | cons e fs ih =>
    rw [Telling.run_cons, Option.bind_eq_some_iff] at hrun
    obtain ⟨v, hv, hrun⟩ := hrun
    simpa using ih (h.step hv) hrun

theorem attends_start (id : UnitId) (path : FilePath) :
    Attends Telling.start [] (Assembly.start id path) := by
  refine ⟨⟨orderly_start id path, fun n => by cases n <;> rfl, ⟨rfl, rfl, .nil, rfl⟩, .nil,
    fun i c hc => ?_, fun _ _ hf => ?_, fun c hc => ?_⟩, Telling.recalls_start, rfl, rfl,
    fun _ _ hsome => ?_⟩
  · simp [Assembly.start, SourceUnit.classAt?] at hc
  · simp [tellings] at hf
  · simp [Assembly.start] at hc
  · simp [Assembly.start] at hsome

end Assembly

/-! ### Full names -/

namespace Name

theorem join_eq_ofSegments {outer : Option String} (h : outer ≠ some "") (name : String) :
    join outer name = ofSegments (outer.toList ++ [name]) := by
  cases outer with
  | none => rfl
  | some o =>
    have hne : o ≠ "" := fun ho => h (congrArg some ho)
    rw [join, if_neg hne]
    exact (ofSegments_concat (List.cons_ne_nil o []) name).symm

end Name

namespace SourceUnit

variable {u : SourceUnit}

/-- The scope of a class is the class and the scope around it. -/
theorem Linked.scopeFrom_some (h : u.Linked) {i : ClassIndex} {c : Class}
    (hc : u.classAt? i = some c) : u.scopeFrom (some i) = c :: u.scopeFrom c.enclosing := by
  have hlt : i.number < u.classes.length := (List.getElem?_eq_some_iff.mp hc).1
  rw [scopeFrom, h.outward_eq hlt (Nat.lt_succ_of_lt hlt), outward_succ hc]
  rfl

/-- The full name of a class names the package, the classes around it and the class itself. -/
theorem Linked.fullName_eq (h : u.Linked) (hpackage : u.package ≠ some "")
    (houtermost : ∀ c ∈ u.classes, c.enclosing = none → c.fullName = Name.join u.package c.name)
    {i : ClassIndex} {c : Class} (hc : u.classAt? i = some c) : c.fullName = Name.ofSegments
      (u.package.toList ++ (u.scopeFrom c.enclosing).reverse.map (·.name) ++ [c.name]) := by
  induction hn : i.number using Nat.strong_induction_on generalizing i c with
  | _ n ih =>
    cases henclosing : c.enclosing with
    | none =>
      rw [houtermost c (List.mem_of_getElem? hc) henclosing, Name.join_eq_ofSegments hpackage]
      simp [scopeFrom]
    | some j =>
      obtain ⟨hlt, o, ho, hname⟩ := (h.links i c hc).outer j henclosing
      have houter := ih j.number (hn ▸ hlt) ho rfl
      have hsegments : u.package.toList ++ (u.scopeFrom (some j)).reverse.map (·.name) =
          u.package.toList ++ (u.scopeFrom o.enclosing).reverse.map (·.name) ++ [o.name] := by
        rw [h.scopeFrom_some ho, List.reverse_cons, List.map_append, List.append_assoc]
        rfl
      rw [hsegments, Name.ofSegments_concat (List.append_ne_nil_of_right_ne_nil _ (by simp)),
        ← houter, hname]

/-- The unit that events tell contains them, if the protocol allows them and a package that they
tell has a name. -/
theorem contains_ofEvents {t : Telling} {es : List Event} (id : UnitId) (path : FilePath)
    (h : Telling.start.run es = some t) (hnamed : ∀ p, .package p ∈ es → p.name ≠ "") :
    (ofEvents id path es).Contains es := by
  have hgathers := ((Assembly.attends_start id path).foldl h).gathers
  rw [List.nil_append] at hgathers
  have hpackage : (ofEvents id path es).package ≠ some "" := by
    intro hempty
    have hname : "" ∈ (told Event.package? es).map (·.decl.name) := by
      rw [← hgathers.heads.package, ← ofEvents, hempty]
      exact List.mem_singleton_self ""
    obtain ⟨t, ht, hname⟩ := List.mem_map.mp hname
    have hdecl : t.decl ∈ es.filterMap Event.package? := by
      rw [← map_decl_told]
      exact List.mem_map_of_mem ht
    obtain ⟨e, he, hpick⟩ := List.mem_filterMap.mp hdecl
    cases e <;> cases hpick
    exact hnamed _ he hname
  refine
    { heads := hgathers.heads
      classes := hgathers.classes
      members := hgathers.members
      placed := fun before e he hmember => ?_
      fullName := fun c hc => ?_ }
  · obtain ⟨i, hi, hlt⟩ := hgathers.placed before e he hmember
    exact ⟨i, hi, Option.isSome_iff_exists.mpr ⟨_, List.getElem?_eq_getElem hlt⟩⟩
  · obtain ⟨n, hn⟩ := List.mem_iff_getElem?.mp hc
    exact hgathers.orderly.linked.fullName_eq hpackage hgathers.outermost (i := ⟨n⟩) hn

end SourceUnit

/-- The events of a text are told by the protocol. -/
theorem run_parse (text : String) : ∃ t, Telling.start.run (parse text).events = some t := by
  obtain ⟨t, ht, _⟩ := Grammar.compilationUnit_tells (Lexeme.ofTokens (lex text).tokens)
  rcases events_parse text with h | h
  · rw [h]
    exact ⟨_, rfl⟩
  · rw [h]
    exact ⟨t, ht⟩

/-- A text that follows the grammar is read as a unit that contains its events. -/
theorem parse_contents {text : String} (h : (parse text).error = none) (id : UnitId)
    (path : FilePath) : ∃ u, SourceUnit.ofText id path text = .ok u ∧
      u.Contains (parse text).events := by
  obtain ⟨t, ht⟩ := run_parse text
  refine ⟨_, ?_, SourceUnit.contains_ofEvents id path ht fun p hp => package_name_ne hp⟩
  simp only [SourceUnit.ofText, h]

/-- A nested class with a documented field. -/
def sampleText : String :=
  "package p; class A \x7b /** The count. */ int n; class B \x7b\x7d \x7d"

theorem parse_contents_sampleText : (parse sampleText).error = none ∧
    ∃ u, SourceUnit.ofText ⟨0⟩ ⟨"A.java"⟩ sampleText = .ok u ∧
      u.Contains (parse sampleText).events := by
  have h : (parse sampleText).error = none := by decide +kernel
  exact ⟨h, parse_contents h ⟨0⟩ ⟨"A.java"⟩⟩

end JavaModel
