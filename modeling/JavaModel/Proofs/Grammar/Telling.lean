import JavaModel.Grammar.CompilationUnit
import JavaModel.Proofs.Event.Protocol
import JavaModel.Proofs.Grammar.Parts
import JavaModel.Proofs.Grammar.Silence

/-! The grammar keeps the protocol of events. `Tells s p Q` says that the events of `p` lead from
the stage `s` to one in `Q`, or, where `p` stops, to one at which a unit may break off. Every reader
of a member begins and ends at the stage of the class around it, and a type declaration opens a
class and closes it again; `parse_wellTold` is the protocol for a whole text. -/

namespace JavaModel

namespace Reader

variable {α β : Type} {s : Telling} {Q R : Telling → Prop}

/-- From the stage `s`, a reader tells events that the protocol allows. Where it succeeds they lead
to a stage in `Q`, and where it stops to one at which a unit may break off. -/
def Tells (s : Telling) (p : Reader α) (Q : Telling → Prop) : Prop :=
  ∀ ls, ∃ t, s.run (p ls).1 = some t ∧
    match (p ls).2 with
    | .ok _ => Q t
    | .error _ => t.Interrupted

theorem Tells.bind {p : Reader α} {f : α → Reader β} (hp : Tells s p Q)
    (hf : ∀ a t, Q t → Tells t (f a) R) : Tells s (p >>= f) R := by
  intro ls
  obtain ⟨t, ht, hQ⟩ := hp ls
  change ∃ t, s.run (andThen p f ls).1 = some t ∧
    match (andThen p f ls).2 with
    | .ok _ => R t
    | .error _ => t.Interrupted
  unfold andThen
  rcases hrun : p ls with ⟨told, m | ⟨a, rest⟩⟩
  · rw [hrun] at ht hQ
    exact ⟨t, ht, hQ⟩
  · rw [hrun] at ht hQ
    obtain ⟨u, hu, hR⟩ := hf a t hQ rest
    exact ⟨u, by rw [Telling.run_append, ht]; exact hu, hR⟩

theorem Tells.ite {c : Prop} [Decidable c] {p q : Reader α} (hp : Tells s p Q) (hq : Tells s q Q) :
    Tells s (if c then p else q) Q := by
  split
  · exact hp
  · exact hq

theorem Tells.mono {p : Reader α} (h : Tells s p Q) (hQ : ∀ t, Q t → R t) : Tells s p R := by
  intro ls
  obtain ⟨t, ht, h⟩ := h ls
  refine ⟨t, ht, ?_⟩
  rcases hrun : (p ls).2 with m | a
  · rw [hrun] at h
    exact h
  · rw [hrun] at h
    exact hQ t h

/-- A reader that tells nothing stays at its stage. -/
theorem Silent.tells {p : Reader α} (hp : Silent p) (hs : s.Interrupted) :
    Tells s p (· = s) := by
  intro ls
  refine ⟨s, by rw [hp ls]; rfl, ?_⟩
  cases (p ls).2 with
  | ok a => rfl
  | error m => exact hs

/-- A reader that tells nothing and then one from the same stage on. -/
theorem Silent.andThen_tells {p : Reader α} {f : α → Reader β} (hp : Silent p)
    (hs : s.Interrupted) (hf : ∀ a, Tells s (f a) Q) : Tells s (p >>= f) Q :=
  (hp.tells hs).bind fun a _ ht => ht ▸ hf a

theorem tells_pure (a : α) (hs : Q s) : Tells s (pure a) Q := fun _ => ⟨s, rfl, hs⟩

theorem tells_fail (e : Expectation) (hs : s.Interrupted) : Tells s (fail e : Reader α) Q :=
  fun _ => ⟨s, rfl, hs⟩

theorem tells_tell {e : Event} {t : Telling} (h : s.after? e = some t) :
    Tells s (tell e) (· = t) := fun _ => ⟨t, by simp [tell, h], rfl⟩

/-- A repetition passes on what its body passes on, at every stage of a set `I` at which a unit may
break off. -/
theorem Tells.recurse {I : Telling → Prop} {Q : Telling → Telling → Prop}
    {body : (α → Reader β) → α → Reader β} (hI : ∀ s, I s → s.Interrupted)
    (hbody : ∀ self, (∀ a s, I s → Tells s (self a) (Q s)) →
      ∀ a s, I s → Tells s (body self a) (Q s))
    (a : α) {s : Telling} (hs : I s) : Tells s (recurse body a) (Q s) := fun ls =>
  unroll_induction (P := fun _ p => ∀ s, I s → Tells s p (Q s))
    (fun _ s hs => tells_fail _ (hI s hs)) hbody (ls.length + 1) a s hs ls

end Reader

namespace Grammar

open Reader Telling

/-- A stage at which any declaration may begin. -/
def Ready (s : Telling) : Prop := s.phase.isOpen ∧ s.due = .anything

/-- The stage behind a type declaration. -/
def behindType (s : Telling) : Telling := ⟨.types, s.depth, .anything⟩

/-- The stage inside a class with `depth` classes around it. -/
def inClass (depth : Nat) : Telling := ⟨.types, depth + 1, .anything⟩

/-- A stage at which the declaration that a comment names may begin. -/
def Announced (s : Telling) (target : DocTarget) (t : Telling) : Prop :=
  t.phase = s.phase ∧ t.depth = s.depth ∧ t.due.admits target

theorem Ready.interrupted {s : Telling} (h : Ready s) : s.Interrupted := ⟨h.1, .inl h.2⟩

theorem ready_behindType (s : Telling) : Ready (behindType s) := ⟨Phase.types_isOpen, rfl⟩

theorem ready_inClass (depth : Nat) : Ready (inClass depth) := ⟨Phase.types_isOpen, rfl⟩

theorem inClass_interrupted (depth : Nat) : (inClass depth).Interrupted :=
  (ready_inClass depth).interrupted

/-- A declaration that is announced may still be missing. -/
theorem Announced.interrupted {s t : Telling} {target : DocTarget} (h : Announced s target t)
    (hs : Ready s) : t.Interrupted := by
  obtain ⟨hphase, _, hdue⟩ := h
  refine ⟨hphase ▸ hs.1, ?_⟩
  simp only [Due.admits, Bool.or_eq_true, decide_eq_true_eq] at hdue
  exact hdue.imp_right fun h => ⟨target, h⟩

theorem tells_inside {s t : Telling} {e : Event} (hs : s.phase.isOpen) (h : s.inside? e = some t) :
    Tells s (tell e) (· = t) := by
  refine tells_tell ?_
  have hne : s ≠ start := by
    rintro rfl
    exact absurd hs.1 (by decide)
  unfold after?
  rw [if_neg hne, if_pos hs, h]

theorem tellDoc_tells {s : Telling} (hs : Ready s) (doc : Option String) (target : DocTarget) :
    Tells s (tellDoc doc target) (Announced s target) := by
  cases doc with
  | none => exact tells_pure _ ⟨rfl, rfl, by simp [Due.admits, hs.2]⟩
  | some text =>
    have hin : s.inside? (.doc (DocText.clean text) target)
        = some { s with due := .declaration target } := if_pos hs.2
    refine (tells_inside hs.1 hin).mono ?_
    rintro _ rfl
    exact ⟨rfl, rfl, by simp [Due.admits]⟩

/-! ### Fields and methods -/

variable (depth : Nat)

theorem tellField_tells (doc : Option String) (f : Written.Field) :
    Tells (inClass depth) (tellField doc f) (· = inClass depth) := by
  refine (tellDoc_tells (ready_inClass depth) doc _).bind fun _ t ⟨hphase, hdepth, hdue⟩ => ?_
  have hopen : t.phase.isOpen := hphase ▸ Phase.types_isOpen
  have hbegin : t.inside? (.beginField f) = some ⟨.types, depth + 1, .endField⟩ := by
    simp [inside?, hdepth, hdue, inClass]
  refine (tells_inside hopen hbegin).bind fun _ u hu => ?_
  subst hu
  exact tells_inside Phase.types_isOpen (by simp [inside?, inClass])

theorem tellMethod_tells (doc : Option String) (m : Written.Method) :
    Tells (inClass depth) (tellMethod doc m) (· = inClass depth) := by
  refine (tellDoc_tells (ready_inClass depth) doc _).bind fun _ t ⟨hphase, hdepth, hdue⟩ => ?_
  have hopen : t.phase.isOpen := hphase ▸ Phase.types_isOpen
  have hbegin : t.inside? (.beginMethod m) = some ⟨.types, depth + 1, .endMethod⟩ := by
    have htarget : t.due.admits m.target := hdue
    simp [inside?, hdepth, htarget, inClass]
  refine (tells_inside hopen hbegin).bind fun _ u hu => ?_
  subst hu
  exact tells_inside Phase.types_isOpen (by simp [inside?, inClass])

theorem silent_expressionAfter (k : TokenKind) : Silent (do
    if ← accept k then pure (some (← expression)) else pure none) :=
  (silent_accept _).bind fun _ => .ite (silent_expression.bind fun _ => silent_pure _)
    (silent_pure _)

theorem declarators_tells (o : Opening) (t : TypeExpr) (name : String) :
    Tells (inClass depth) (declarators o t name) (· = inClass depth) := by
  have hstop := inClass_interrupted depth
  refine Tells.recurse (I := (· = inClass depth)) (Q := fun _ u => u = inClass depth)
    (fun _ h => h ▸ hstop) (fun self hself name s hs => ?_) name rfl
  subst hs
  refine silent_dims.andThen_tells hstop fun extra => ?_
  have hinitializer : Silent (do
      if ← accept .equals then pure (some (← expression)) else pure none) :=
    silent_expressionAfter _
  refine hinitializer.andThen_tells hstop fun initializer => ?_
  refine (tellField_tells depth _ _).bind fun _ t ht => ?_
  subst ht
  refine (silent_accept _).andThen_tells hstop fun b => .ite ?_ ?_
  · exact (silent_identifier _).andThen_tells hstop fun next => hself next _ rfl
  · exact (silent_expect _ _).andThen_tells hstop fun _ => tells_pure _ rfl

theorem methodRest_tells (o : Opening) (typeParams : List (TypeParameter TypeExpr))
    (returnType : Option TypeExpr) (name : String) :
    Tells (inClass depth) (methodRest o typeParams returnType name) (· = inClass depth) := by
  have hstop := inClass_interrupted depth
  have hdefault : Silent (do
      if ← accept (.modifier .isDefault) then pure (some (← expression)) else pure none) :=
    silent_expressionAfter _
  have hbody : Silent (do
      if ← atKind .leftBrace then pure (some (← enclosed .brace))
      else
        let _ ← expect .semicolon .methodEnd
        pure none) :=
    (silent_atKind _).bind fun _ => .ite ((silent_enclosed _).bind fun _ => silent_pure _)
      ((silent_expect _ _).bind fun _ => silent_pure _)
  refine silent_parameters.andThen_tells hstop fun params => ?_
  refine silent_dims.andThen_tells hstop fun extra => ?_
  refine (silent_typesAfter _).andThen_tells hstop fun throwing => ?_
  refine hdefault.andThen_tells hstop fun defaultValue => ?_
  exact hbody.andThen_tells hstop fun body => tellMethod_tells depth _ _

theorem constantEnd_tells {self : Unit → Reader Unit}
    (hself : Tells (inClass depth) (self ()) (· = inClass depth)) :
    Tells (inClass depth) (constantEnd self) (· = inClass depth) := by
  have hstop := inClass_interrupted depth
  refine (silent_accept _).andThen_tells hstop fun b => .ite hself ?_
  refine silent_lookAhead.andThen_tells hstop fun ls => ?_
  split
  · exact (silent_skip 1).tells hstop
  · exact tells_pure _ rfl
  · exact tells_fail _ hstop

theorem constants_tells (enum : String) :
    Tells (inClass depth) (constants enum) (· = inClass depth) := by
  have hstop := inClass_interrupted depth
  refine Tells.recurse (I := (· = inClass depth)) (Q := fun _ u => u = inClass depth)
    (fun _ h => h ▸ hstop) (fun self hself _ s hs => ?_) () rfl
  subst hs
  rw [constantsBody_eq]
  refine silent_lookAhead.andThen_tells hstop fun ls => ?_
  split
  · exact (silent_skip 1).tells hstop
  · exact tells_pure _ rfl
  · exact tells_pure _ rfl
  · refine silent_docHere.andThen_tells hstop fun doc => ?_
    refine silent_lineHere.andThen_tells hstop fun line => ?_
    refine silent_annotations.andThen_tells hstop fun notes => ?_
    refine (silent_identifier _).andThen_tells hstop fun name => ?_
    have hinitializer : Silent (do
        if ← atKind .leftParen then pure (some (← enclosed .paren)) else pure none) :=
      (silent_atKind _).bind fun _ => .ite ((silent_enclosed _).bind fun _ => silent_pure _)
        (silent_pure _)
    refine hinitializer.andThen_tells hstop fun initializer => ?_
    have hend := constantEnd_tells depth (hself () _ rfl)
    refine (silent_atKind _).andThen_tells hstop fun b => .ite ?_ ?_
    · refine (silent_enclosed _).andThen_tells hstop fun _ => ?_
      exact (tellField_tells depth _ _).bind fun _ _ ht => ht ▸ hend
    · exact (tellField_tells depth _ _).bind fun _ _ ht => ht ▸ hend

theorem tellComponents_tells (line : Nat) (components : List Written.Parameter) :
    Tells (inClass depth) (tellComponents line components) (· = inClass depth) := by
  induction components with
  | nil => exact tells_pure _ rfl
  | cons p ps ih =>
    unfold tellComponents
    cases p.name with
    | none => exact ih
    | some name =>
      refine (tellField_tells depth _ _).bind fun _ t ht => ?_
      subst ht
      exact ih

/-! ### Classes -/

/-- A reader of type declarations that keeps the protocol wherever a declaration may begin. -/
def TellsTypes (readClass : ReadClass) : Prop :=
  ∀ start s, Ready s → Tells s (readClass start) (· = behindType s)

theorem silent_opening : Silent opening :=
  silent_docHere.bind fun _ => silent_lineHere.bind fun _ => silent_decorations.bind fun _ =>
    silent_pure _

theorem member_tells {readClass : ReadClass} (h : TellsTypes readClass) (owner : ClassKind)
    (className : String) :
    Tells (inClass depth) (member readClass owner className) (· = inClass depth) := by
  have hstop := inClass_interrupted depth
  refine silent_opening.andThen_tells hstop fun o => ?_
  refine silent_lookAhead.andThen_tells hstop fun ls => ?_
  split
  · exact h _ _ (ready_inClass depth)
  · refine silent_typeParameters.andThen_tells hstop fun typeParams => ?_
    refine silent_lookAhead.andThen_tells hstop fun ls => .ite ?_ (.ite ?_ ?_)
    · exact (silent_skip 1).andThen_tells hstop fun _ => methodRest_tells depth _ _ _ _
    · refine (silent_skip 1).andThen_tells hstop fun _ => ?_
      exact (silent_enclosed _).andThen_tells hstop fun _ => tells_pure _ rfl
    · refine silent_type.andThen_tells hstop fun t => ?_
      refine (silent_identifier _).andThen_tells hstop fun name => ?_
      refine (silent_atKind _).andThen_tells hstop fun b => .ite ?_ ?_
      · exact methodRest_tells depth _ _ _ _
      · exact declarators_tells depth _ _ _

theorem members_tells {readClass : ReadClass} (h : TellsTypes readClass) (owner : ClassKind)
    (className : String) :
    Tells (inClass depth) (recurse (membersBody readClass owner className) ())
      (· = inClass depth) := by
  have hstop := inClass_interrupted depth
  refine Tells.recurse (I := (· = inClass depth)) (Q := fun _ u => u = inClass depth)
    (fun _ h => h ▸ hstop) (fun self hself _ s hs => ?_) () rfl
  subst hs
  refine silent_lookAhead.andThen_tells hstop fun ls => ?_
  split
  · exact tells_fail _ hstop
  · exact (silent_skip 1).tells hstop
  · exact (silent_skip 1).andThen_tells hstop fun _ => hself () _ rfl
  · exact (silent_enclosed _).andThen_tells hstop fun _ => hself () _ rfl
  · refine .ite ?_ ?_
    · refine (silent_skip 1).andThen_tells hstop fun _ => ?_
      exact (silent_enclosed _).andThen_tells hstop fun _ => hself () _ rfl
    · exact (member_tells depth h owner className).bind fun _ t ht => ht ▸ hself () _ rfl

theorem classBody_tells {readClass : ReadClass} (h : TellsTypes readClass) (kind : ClassKind)
    (name : String) :
    Tells (inClass depth) (classBody readClass kind name) (· = inClass depth) := by
  have hmembers := members_tells depth h kind name
  refine (silent_expect _ _).andThen_tells (inClass_interrupted depth) fun _ => .ite ?_ hmembers
  exact (constants_tells depth name).bind fun _ t ht => ht ▸ hmembers

theorem silent_extendedTypes (kind : ClassKind) : Silent (extendedTypes kind) := by
  cases kind with
  | plainClass =>
    exact (silent_accept _).bind fun _ => .ite (silent_type.bind fun _ => silent_pure _)
      (silent_pure _)
  | interfaceType => exact silent_typesAfter _
  | enumType | annotationType | recordType => exact silent_pure _

theorem silent_permittedTypes : Silent permittedTypes :=
  silent_lookAhead.bind fun _ => .ite ((silent_skip 1).bind fun _ => silent_typeList)
    (silent_pure _)

theorem classBodyOf_tells {self : ReadClass} (h : TellsTypes self) :
    TellsTypes (classBodyOf self) := by
  rintro ⟨kind, o⟩ s hs
  have hstop := hs.interrupted
  refine (silent_skip _).andThen_tells hstop fun _ => ?_
  refine (silent_identifier _).andThen_tells hstop fun name => ?_
  refine silent_typeParameters.andThen_tells hstop fun typeParams => ?_
  have hcomponents : Silent (if kind = .recordType then parameters else pure []) :=
    .ite silent_parameters (silent_pure _)
  refine hcomponents.andThen_tells hstop fun components => ?_
  refine (silent_extendedTypes kind).andThen_tells hstop fun extending => ?_
  refine (silent_typesAfter _).andThen_tells hstop fun implementing => ?_
  refine silent_permittedTypes.andThen_tells hstop fun permitting => ?_
  refine (tellDoc_tells hs _ _).bind fun _ t ⟨hphase, hdepth, hdue⟩ => ?_
  have hopen : t.phase.isOpen := hphase ▸ hs.1
  refine (tells_inside (t := inClass s.depth) hopen ?_).bind fun _ u hu => ?_
  · simp [inside?, hdue, hdepth, inClass]
  subst hu
  have hbody : Tells (inClass s.depth) (do
      classBody self kind name
      tell .endClass) (· = behindType s) := by
    refine (classBody_tells s.depth h kind name).bind fun _ t ht => ?_
    subst ht
    exact tells_inside Phase.types_isOpen (by simp [inside?, inClass, behindType])
  refine .ite ?_ hbody
  refine (tellComponents_tells s.depth _ _).bind fun _ t ht => ?_
  subst ht
  exact (tellMethod_tells s.depth _ _).bind fun _ t ht => ht ▸ hbody

theorem classDeclaration_tells : TellsTypes classDeclaration := fun start _ hs =>
  Tells.recurse (I := Ready) (Q := fun s u => u = behindType s) (fun _ => Ready.interrupted)
    (fun _ hself => classBodyOf_tells fun start s hs => hself start s hs) start hs

theorem typeDeclaration_tells {s : Telling} (hs : Ready s) :
    Tells s typeDeclaration (· = behindType s) := by
  refine silent_opening.andThen_tells hs.interrupted fun o => ?_
  refine silent_lookAhead.andThen_tells hs.interrupted fun ls => ?_
  split
  · exact classDeclaration_tells _ s hs
  · exact tells_fail _ hs.interrupted

/-! ### Source units -/

theorem ready_opened : Ready opened := ⟨by decide, rfl⟩

/-- A stage behind the package declaration, and before all classes. -/
def InHead (s : Telling) : Prop :=
  (s.phase = .prologue ∨ s.phase = .imports) ∧ s.depth = 0 ∧ s.due = .anything

theorem InHead.ready {s : Telling} (h : InHead s) : Ready s := by
  obtain ⟨hphase, _, hdue⟩ := h
  refine ⟨?_, hdue⟩
  rcases hphase with hphase | hphase
  · exact hphase ▸ (by decide)
  · exact hphase ▸ (by decide)

theorem packageDeclaration_tells : Tells opened packageDeclaration InHead := by
  have hstop := ready_opened.interrupted
  have hhead : InHead opened := ⟨.inl rfl, rfl, rfl⟩
  refine silent_lookAhead.andThen_tells hstop fun start => ?_
  refine silent_docHere.andThen_tells hstop fun doc => ?_
  refine silent_lineHere.andThen_tells hstop fun line => ?_
  refine silent_annotations.andThen_tells hstop fun notes => ?_
  refine (silent_atKind _).andThen_tells hstop fun b => .ite ?_ ?_
  · refine silent_docHere.andThen_tells hstop fun nearer => ?_
    refine (tellDoc_tells ready_opened _ _).bind fun _ t ht => ?_
    have hstop' := ht.interrupted ready_opened
    refine (silent_skip 1).andThen_tells hstop' fun _ => ?_
    refine silent_qualifiedName.andThen_tells hstop' fun name => ?_
    refine (silent_expect _ _).andThen_tells hstop' fun _ => ?_
    obtain ⟨hphase, hdepth, hdue⟩ := ht
    refine (tells_inside (t := ⟨.imports, 0, .anything⟩) hstop'.1 ?_).mono ?_
    · simp [inside?, hphase, hdepth, hdue, opened]
    · rintro _ rfl
      exact ⟨.inr rfl, rfl, rfl⟩
  · exact ((silent_continueWith _).tells hstop).mono fun _ ht => ht ▸ hhead

theorem silent_importedName (name : String) : Silent (recurse importedNameBody name) := by
  refine Silent.recurse (fun self hself name => ?_) name
  refine (silent_accept _).bind fun _ => .ite ?_ (silent_pure _)
  refine silent_lookAhead.bind fun ls => .ite ?_ ?_
  · exact (silent_skip 1).bind fun _ => silent_pure _
  · exact (silent_identifier _).bind fun _ => hself _

theorem importDeclaration_tells {s : Telling} (hs : InHead s) :
    Tells s importDeclaration InHead := by
  have hstop := hs.ready.interrupted
  refine silent_lineHere.andThen_tells hstop fun line => ?_
  refine (silent_skip 1).andThen_tells hstop fun _ => ?_
  refine (silent_accept _).andThen_tells hstop fun isStatic => ?_
  refine (silent_identifier _).andThen_tells hstop fun first => ?_
  refine (silent_importedName _).andThen_tells hstop fun named => ?_
  refine (silent_expect _ _).andThen_tells hstop fun _ => ?_
  obtain ⟨hphase, hdepth, hdue⟩ := hs
  refine (tells_inside (t := ⟨.imports, 0, .anything⟩) hstop.1 ?_).mono ?_
  · rcases hphase with hphase | hphase <;> simp [inside?, hphase, hdepth, hdue]
  · rintro _ rfl
    exact ⟨.inr rfl, rfl, rfl⟩

theorem importDeclarations_tells {s : Telling} (hs : InHead s) (starts : List Lexeme → Bool) :
    Tells s (many starts importDeclaration) InHead := by
  refine Tells.recurse (I := InHead) (Q := fun _ => InHead)
    (fun _ h => h.ready.interrupted) (fun self hself _ s hs => ?_) () hs
  refine silent_lookAhead.andThen_tells hs.ready.interrupted fun ls => .ite ?_ (tells_pure _ hs)
  refine (importDeclaration_tells hs).bind fun i t ht => ?_
  exact (hself () t ht).bind fun is u hu => tells_pure _ hu

theorem silent_moduleDeclaration : Silent moduleDeclaration :=
  silent_lookAhead.bind fun _ => (silent_continueWith _).bind fun _ =>
    (silent_atKind _).bind fun _ =>
      .ite ((silent_enclosed _).bind fun _ => silent_pure _) (silent_fail _)

/-- A stage outside all classes. -/
def Outermost (s : Telling) : Prop := Ready s ∧ s.depth = 0

theorem declarations_tells {s : Telling} (hs : Outermost s) :
    Tells s (recurse declarationsBody ()) Outermost := by
  refine Tells.recurse (I := Outermost) (Q := fun _ => Outermost)
    (fun _ h => h.1.interrupted) (fun self hself _ s hs => ?_) () hs
  have hstop := hs.1.interrupted
  refine silent_lookAhead.andThen_tells hstop fun ls => .ite (tells_pure _ hs) ?_
  refine .ite ?_ (.ite ?_ ?_)
  · exact (silent_skip 1).andThen_tells hstop fun _ => hself () s hs
  · exact silent_moduleDeclaration.andThen_tells hstop fun _ => hself () s hs
  · refine (typeDeclaration_tells hs.1).bind fun _ t ht => ?_
    subst ht
    exact hself () _ ⟨ready_behindType s, hs.2⟩

theorem compilationUnit_tells : Tells start compilationUnit (· = finished) := by
  refine (tells_tell (t := opened) (by decide)).bind fun _ t ht => ?_
  subst ht
  refine packageDeclaration_tells.bind fun _ t ht => ?_
  refine (importDeclarations_tells ht _).bind fun _ u hu => ?_
  refine (declarations_tells ⟨hu.ready, hu.2.1⟩).bind fun _ v ⟨hv, hdepth⟩ => ?_
  exact tells_inside hv.1 (by simp [inside?, hdepth, hv.2, finished])

end Grammar

open Telling

/-- A text with a malformed token tells no event. Any other text tells its events by the protocol:
to the end if it follows the grammar, and broken off if it does not. -/
theorem parse_wellTold (text : String) :
    ((lex text).error.isSome → (parse text).events = []) ∧
      ((lex text).error = none → WellTold (parse text).events (parse text).error.isNone) := by
  constructor
  · intro h
    obtain ⟨e, he⟩ := Option.isSome_iff_exists.mp h
    simp [parse, he]
  · intro h
    obtain ⟨t, ht, hend⟩ := Grammar.compilationUnit_tells (Lexeme.ofTokens (lex text).tokens)
    rcases hrun : Grammar.compilationUnit (Lexeme.ofTokens (lex text).tokens) with ⟨told, m | a⟩
    · rw [hrun] at ht hend
      have hparse : parse text
          = ⟨told, some (.grammatical (GrammarError.ofMismatch text m))⟩ := by
        simp only [parse, h, hrun]
      rw [hparse]
      exact wellTold_of_run ht (by simp) fun _ => hend
    · rw [hrun] at ht hend
      have hparse : parse text = ⟨told, none⟩ := by simp only [parse, h, hrun]
      rw [hparse]
      exact wellTold_of_run ht (fun _ => hend) (by simp)

end JavaModel
