import JavaModel.Proofs.Event.Nesting
import JavaModel.Proofs.Grammar.Members

/-! Constructors are told under the name of the class that they are told in. `Event.openNames?`
follows events with the names of the classes that are open, and breaks off at a constructor of
another name than that of the innermost one. A text that follows the grammar never comes to this:
what has no return type is read as a constructor only where the name of the class stands, and a
record is told a constructor of its own name. -/

namespace JavaModel

namespace Event

/-- The names of the classes open behind an event, innermost first, given those open before it. A
constructor has to have the name of the innermost one. -/
def openNames? (around : List String) : Event → Option (List String)
  | beginClass c => some (c.name :: around)
  | endClass => some around.tail
  | beginMethod m => if m.isConstructor → around.head? = some m.name then some around else none
  | _ => some around

/-- The names of the classes open behind events. -/
def openNamesAfter? (around : List String) (es : List Event) : Option (List String) :=
  es.foldlM openNames? around

variable {around : List String}

theorem openNamesAfter?_append (around : List String) (es fs : List Event) :
    openNamesAfter? around (es ++ fs) =
      (openNamesAfter? around es).bind fun between => openNamesAfter? between fs := by
  rw [openNamesAfter?, List.foldlM_append]
  rfl

theorem openNamesAfter?_ofDoc (doc : Option String) (target : DocTarget) :
    openNamesAfter? around (ofDoc doc target) = some around := by
  cases doc <;> rfl

theorem openNamesAfter?_ofField (doc : Option String) (f : Written.Field) :
    openNamesAfter? around (ofField doc f) = some around := by
  rw [ofField, openNamesAfter?_append, openNamesAfter?_ofDoc]
  rfl

theorem openNames?_beginMethod {m : Written.Method} {after : List String} :
    openNames? around (.beginMethod m) = some after ↔
      (m.isConstructor → around.head? = some m.name) ∧ around = after := by
  rw [openNames?, Option.ite_none_right_eq_some, Option.some_inj]

theorem openNamesAfter?_ofMethod (doc : Option String) {m : Written.Method}
    (h : m.isConstructor → around.head? = some m.name) :
    openNamesAfter? around (ofMethod doc m) = some around := by
  rw [ofMethod, openNamesAfter?_append, openNamesAfter?_ofDoc, Option.bind_some, openNamesAfter?,
    List.foldlM_cons, openNames?_beginMethod.mpr ⟨h, rfl⟩]
  rfl

theorem openNamesAfter?_ofComponents (line : Nat) (components : List Written.Parameter) :
    openNamesAfter? around (ofComponents line components) = some around := by
  induction components with
  | nil => rfl
  | cons p ps ih =>
    rw [ofComponents, List.flatMap_cons, openNamesAfter?_append]
    cases p.name with
    | none => exact ih
    | some name =>
      rw [Option.toList_some, List.flatMap_singleton, openNamesAfter?_ofField]
      exact ih

end Event

namespace Reader

variable {α β : Type} {around between after : List String}

/-- Where the reader succeeds, what it tells leads from the names of the classes around it to the
names of those behind it. -/
def Opens (around : List String) (p : Reader α) (after : List String) : Prop :=
  ∀ ls told a rest, p ls = (told, .ok (a, rest)) → Event.openNamesAfter? around told = some after

theorem Opens.bind {p : Reader α} {f : α → Reader β} (hp : Opens around p between)
    (hf : ∀ a, Opens between (f a) after) : Opens around (p >>= f) after := by
  intro ls told b rest hrun
  obtain ⟨first, a, middle, more, hfirst, hmore, rfl⟩ := bind_ok hrun
  rw [Event.openNamesAfter?_append, hp _ _ _ _ hfirst]
  exact hf a _ _ _ _ hmore

theorem Opens.ite {c : Prop} [Decidable c] {p q : Reader α} (hp : c → Opens around p after)
    (hq : ¬ c → Opens around q after) : Opens around (if c then p else q) after := by
  split
  · exact hp ‹_›
  · exact hq ‹_›

/-- A reader that tells nothing leaves the classes around it open. -/
theorem Silent.opens {p : Reader α} (h : Silent p) : Opens around p around := by
  intro ls told a rest hrun
  rw [h.told_eq hrun]
  rfl

theorem Silent.opens_bind {p : Reader α} {f : α → Reader β} (hp : Silent p)
    (hf : ∀ a, Opens around (f a) after) : Opens around (p >>= f) after :=
  hp.opens.bind hf

theorem opens_fail (e : Expectation) : Opens around (fail e : Reader α) after := by
  rintro ls told a rest ⟨⟩

theorem opens_of_told {p : Reader α} {told : List Event} {a : α}
    (hp : ∀ ls, p ls = (told, .ok (a, ls)))
    (h : Event.openNamesAfter? around told = some after) : Opens around p after := by
  intro ls told' a' rest hrun
  rw [hp] at hrun
  cases hrun
  exact h

theorem opens_tell {e : Event} (h : e.openNames? around = some after) :
    Opens around (tell e) after :=
  opens_of_told (fun _ => rfl) (by rw [Event.openNamesAfter?, List.foldlM_cons, h]; rfl)

/-- A repetition leaves open the classes around it, if its body does at every stack of names of a
kind. -/
theorem Opens.recurse {I : List String → Prop} {body : (α → Reader β) → α → Reader β}
    (hbody : ∀ self, (∀ a around, I around → Opens around (self a) around) →
      ∀ a around, I around → Opens around (body self a) around)
    (a : α) (h : I around) : Opens around (recurse body a) around := fun ls =>
  unroll_induction (P := fun _ p => ∀ around, I around → Opens around p around)
    (fun _ _ _ => opens_fail _) hbody (ls.length + 1) a around h ls

end Reader

namespace Grammar

open Reader Lexeme

variable {around : List String} {name : String}

/-! ### Members -/

theorem opens_tellDoc (doc : Option String) (target : DocTarget) :
    Opens around (tellDoc doc target) around :=
  opens_of_told (tellDoc_eq doc target) (Event.openNamesAfter?_ofDoc doc target)

theorem opens_tellField (doc : Option String) (f : Written.Field) :
    Opens around (tellField doc f) around :=
  opens_of_told (tellField_eq doc f) (Event.openNamesAfter?_ofField doc f)

theorem opens_tellMethod (doc : Option String) {m : Written.Method}
    (h : m.isConstructor → around.head? = some m.name) :
    Opens around (tellMethod doc m) around :=
  opens_of_told (tellMethod_eq doc m) (Event.openNamesAfter?_ofMethod doc h)

theorem opens_tellComponents (line : Nat) (components : List Written.Parameter) :
    Opens around (tellComponents line components) around :=
  opens_of_told (tellComponents_eq line components)
    (Event.openNamesAfter?_ofComponents line components)

theorem opens_declarators (o : Opening) (t : TypeExpr) (name : String) :
    Opens around (declarators o t name) around := by
  refine Opens.recurse (I := fun _ => True) (fun self hself name around _ => ?_) name trivial
  refine silent_dims.opens_bind fun extra => ?_
  refine (silent_expressionAfter _).opens_bind fun initializer => ?_
  refine (opens_tellField _ _).bind fun _ => ?_
  refine (silent_accept _).opens_bind fun b => .ite (fun _ => ?_) fun _ => ?_
  · exact (silent_identifier _).opens_bind fun next => hself next around trivial
  · exact (silent_expect _ _).opens_bind fun _ => (silent_pure ()).opens

/-- What has no return type has the name of the class around it. -/
theorem opens_methodRest (o : Opening) (typeParams : List (TypeParameter TypeExpr))
    {returnType : Option TypeExpr} (h : returnType = none → around.head? = some name) :
    Opens around (methodRest o typeParams returnType name) around := by
  rw [methodRest_eq]
  refine silent_methodFront.opens_bind fun front => silent_methodBody.opens_bind fun body => ?_
  refine opens_tellMethod _ fun hconstructor => h ?_
  simpa [Written.Method.isConstructor, methodOf] using hconstructor

theorem opens_constants (enum : String) : Opens around (constants enum) around := by
  refine Opens.recurse (I := fun _ => True) (fun self hself _ around _ => ?_) () trivial
  have hend : Opens around (constantEnd self) around := by
    refine (silent_accept _).opens_bind fun b => .ite (fun _ => hself () around trivial) fun _ => ?_
    refine silent_lookAhead.opens_bind fun ls => ?_
    split
    · exact (silent_skip 1).opens
    · exact (silent_pure ()).opens
    · exact opens_fail _
  rw [constantsBody_eq]
  refine silent_lookAhead.opens_bind fun ls => ?_
  split
  · exact (silent_skip 1).opens
  · exact (silent_pure ()).opens
  · exact (silent_pure ()).opens
  · refine silent_docHere.opens_bind fun doc => silent_lineHere.opens_bind fun line => ?_
    refine silent_annotations.opens_bind fun notes => ?_
    refine (silent_identifier _).opens_bind fun name => ?_
    refine (silent_groupHere .paren).opens_bind fun initializer => ?_
    refine (silent_atKind _).opens_bind fun b => .ite (fun _ => ?_) fun _ => ?_
    · refine (silent_enclosed _).opens_bind fun _ => ?_
      exact (opens_tellField _ _).bind fun _ => hend
    · exact (opens_tellField _ _).bind fun _ => hend

/-! ### Classes -/

/-- A reader of type declarations that leaves open the classes around it. -/
def OpensTypes (readClass : ReadClass) : Prop :=
  ∀ start around, Opens around (readClass start) around

theorem opens_member {readClass : ReadClass} (h : OpensTypes readClass) (owner : ClassKind)
    (hname : around.head? = some name) : Opens around (member readClass owner name) around := by
  refine silent_opening.opens_bind fun o => silent_lookAhead.opens_bind fun ls => ?_
  split
  · exact h _ around
  · refine silent_typeParameters.opens_bind fun typeParams => ?_
    -- The name of the class with parameters behind it, the same without, or a typed member.
    refine silent_lookAhead.opens_bind fun ls => .ite (fun _ => ?_) fun _ =>
      .ite (fun _ => ?_) fun _ => ?_
    · exact (silent_skip 1).opens_bind fun _ => opens_methodRest o typeParams fun _ => hname
    · exact (silent_skip 1).opens_bind fun _ =>
        (silent_enclosed _).opens_bind fun _ => (silent_pure ()).opens
    · refine silent_type.opens_bind fun t => (silent_identifier _).opens_bind fun member => ?_
      refine (silent_atKind _).opens_bind fun b => .ite (fun _ => ?_) fun _ => ?_
      · exact opens_methodRest o typeParams nofun
      · exact opens_declarators o t member

theorem opens_members {readClass : ReadClass} (h : OpensTypes readClass) (owner : ClassKind)
    (hname : around.head? = some name) :
    Opens around (recurse (membersBody readClass owner name) ()) around := by
  refine Opens.recurse (I := fun around => around.head? = some name)
    (fun self hself _ around hname => ?_) () hname
  refine silent_lookAhead.opens_bind fun ls => ?_
  split
  · exact opens_fail _
  · exact (silent_skip 1).opens
  · exact (silent_skip 1).opens_bind fun _ => hself () around hname
  · exact (silent_enclosed _).opens_bind fun _ => hself () around hname
  · refine .ite (fun _ => ?_) fun _ => ?_
    · refine (silent_skip 1).opens_bind fun _ => (silent_enclosed _).opens_bind fun _ => ?_
      exact hself () around hname
    · exact (opens_member h owner hname).bind fun _ => hself () around hname

theorem opens_classBody {readClass : ReadClass} (h : OpensTypes readClass) (kind : ClassKind)
    (hname : around.head? = some name) : Opens around (classBody readClass kind name) around := by
  have hmembers := opens_members h kind hname
  refine (silent_expect _ _).opens_bind fun _ => .ite (fun _ => ?_) fun _ => hmembers
  exact (opens_constants name).bind fun _ => hmembers

theorem opens_beginClass (c : Written.Class) :
    Opens around (tell (.beginClass c)) (c.name :: around) := opens_tell rfl

theorem opens_classBodyOf {self : ReadClass} (h : OpensTypes self) :
    OpensTypes (classBodyOf self) := by
  rintro ⟨kind, o⟩ around
  refine (silent_skip _).opens_bind fun _ => (silent_identifier _).opens_bind fun name => ?_
  refine silent_typeParameters.opens_bind fun typeParams => ?_
  have hcomponents : Silent (if kind = .recordType then parameters else pure []) :=
    .ite silent_parameters (silent_pure _)
  refine hcomponents.opens_bind fun components => ?_
  refine (silent_extendedTypes kind).opens_bind fun extending => ?_
  refine (silent_typesAfter _).opens_bind fun implementing => ?_
  refine silent_permittedTypes.opens_bind fun permitting => ?_
  refine (opens_tellDoc _ _).bind fun _ => ?_
  refine (opens_beginClass _).bind fun _ => ?_
  have hbody : Opens (name :: around) (do
      classBody self kind name
      tell .endClass) around :=
    (opens_classBody h kind rfl).bind fun _ => opens_tell rfl
  -- The canonical constructor of a record is told in front of what its body holds.
  refine .ite (fun _ => ?_) fun _ => hbody
  refine (opens_tellComponents _ _).bind fun _ => ?_
  exact (opens_tellMethod _ fun _ => rfl).bind fun _ => hbody

theorem opens_classDeclaration : OpensTypes classDeclaration := fun start _ =>
  Opens.recurse (I := fun _ => True) (fun _ hself start around _ =>
    opens_classBodyOf (fun start around => hself start around trivial) start around) start trivial

theorem opens_typeDeclaration : Opens around typeDeclaration around := by
  refine silent_opening.opens_bind fun o => silent_lookAhead.opens_bind fun ls => ?_
  split
  · exact opens_classDeclaration _ around
  · exact opens_fail _

/-! ### Source units -/

theorem opens_packageDeclaration : Opens around packageDeclaration around := by
  refine silent_lookAhead.opens_bind fun start => silent_docHere.opens_bind fun doc => ?_
  refine silent_lineHere.opens_bind fun line => silent_annotations.opens_bind fun notes => ?_
  refine (silent_atKind _).opens_bind fun b => .ite (fun _ => ?_) fun _ =>
    (silent_continueWith start).opens
  refine silent_docHere.opens_bind fun nearer => (opens_tellDoc _ _).bind fun _ => ?_
  refine (silent_skip 1).opens_bind fun _ => silent_qualifiedName.opens_bind fun name => ?_
  exact (silent_expect _ _).opens_bind fun _ => opens_tell rfl

theorem opens_importDeclaration : Opens around importDeclaration around := by
  refine silent_lineHere.opens_bind fun line => (silent_skip 1).opens_bind fun _ => ?_
  refine (silent_accept _).opens_bind fun isStatic => ?_
  refine (silent_identifier _).opens_bind fun first => ?_
  refine (silent_importedName first).opens_bind fun named => ?_
  exact (silent_expect _ _).opens_bind fun _ => opens_tell rfl

theorem opens_importDeclarations (starts : List Lexeme → Bool) :
    Opens around (many starts importDeclaration) around := by
  refine Opens.recurse (I := fun _ => True) (fun self hself _ around _ => ?_) () trivial
  refine silent_lookAhead.opens_bind fun ls => .ite (fun _ => ?_) fun _ => (silent_pure []).opens
  refine opens_importDeclaration.bind fun i => (hself () around trivial).bind fun is => ?_
  exact (silent_pure _).opens

theorem opens_declarations : Opens around (recurse declarationsBody ()) around := by
  refine Opens.recurse (I := fun _ => True) (fun self hself _ around _ => ?_) () trivial
  have hself := hself () around trivial
  refine silent_lookAhead.opens_bind fun ls => .ite (fun _ => (silent_pure ()).opens) fun _ => ?_
  refine .ite (fun _ => ?_) fun _ => .ite (fun _ => ?_) fun _ => ?_
  · exact (silent_skip 1).opens_bind fun _ => hself
  · exact silent_moduleDeclaration.opens_bind fun _ => hself
  · exact opens_typeDeclaration.bind fun _ => hself

theorem opens_compilationUnit : Opens around compilationUnit around := by
  have hbegin : Opens around (tell .beginSource) around := opens_tell rfl
  refine hbegin.bind fun _ => opens_packageDeclaration.bind fun _ => ?_
  refine (opens_importDeclarations _).bind fun _ => opens_declarations.bind fun _ => ?_
  exact opens_tell rfl

end Grammar

/-- In a text that follows the grammar no constructor has another name than its class, and behind it
no class is open. -/
theorem openNames_parse {text : String} (h : (parse text).error = none) :
    Event.openNamesAfter? [] (parse text).events = some [] := by
  obtain ⟨rest, hrun⟩ := compilationUnit_of_parse h
  exact Grammar.opens_compilationUnit _ _ _ _ hrun

end JavaModel
