import JavaModel.Proofs.Grammar.Keeping

/-! Declarations where they stand. What a reader of declarations tells is the events of one
declaration, and where that stands in the text is said by the readers of its parts: the name, what
the name is followed by, and what is left behind it. `KeptMembers` asks of a passage that it goes
along with every such declaration, and then it goes along with what a whole unit tells. -/

namespace JavaModel

open Grammar Reader Lexeme

/-! ### The events of one declaration -/

namespace Event

/-- A documentation comment that is told. -/
def ofDoc (doc : Option String) (target : DocTarget) : List Event :=
  doc.toList.map fun text => .doc (DocText.clean text) target

/-- A field with its comment. -/
def ofField (doc : Option String) (f : Written.Field) : List Event :=
  ofDoc doc (.onField f.name) ++ [.beginField f, .endField]

/-- A method or a constructor with its comment. -/
def ofMethod (doc : Option String) (m : Written.Method) : List Event :=
  ofDoc doc (if m.isConstructor then .onConstructor m.name else .onMethod m.name) ++
    [.beginMethod m, .endMethod]

/-- The fields that the components of a record stand for. -/
def ofComponents (line : Nat) (components : List Written.Parameter) : List Event :=
  components.flatMap fun p =>
    p.name.toList.flatMap fun name => ofField none (componentField line p name)

/-- The members that a record has by its head. -/
def ofRecord (c : Written.Class) (components : List Written.Parameter) : List Event :=
  if c.kind = .recordType then
    ofComponents c.line components ++
      ofMethod none (canonicalConstructor c.line c.name components)
  else []

end Event

namespace Grammar

variable {ls rest : List Lexeme} {told : List Event}

theorem tellDoc_eq (doc : Option String) (target : DocTarget) (ls : List Lexeme) :
    tellDoc doc target ls = (Event.ofDoc doc target, .ok ((), ls)) := by
  cases doc <;> rfl

theorem tellField_eq (doc : Option String) (f : Written.Field) (ls : List Lexeme) :
    tellField doc f ls = (Event.ofField doc f, .ok ((), ls)) := by
  cases doc <;> rfl

theorem tellMethod_eq (doc : Option String) (m : Written.Method) (ls : List Lexeme) :
    tellMethod doc m ls = (Event.ofMethod doc m, .ok ((), ls)) := by
  cases doc <;> rfl

/-- A reader that tells and takes nothing goes before another. -/
theorem tell_bind {α β : Type} {p : Reader α} {f : α → Reader β} {a : α}
    (h : p ls = (told, .ok (a, ls))) : (p >>= f) ls = (told ++ (f a ls).1, (f a ls).2) := by
  change andThen p f ls = _
  simp only [andThen, h]

theorem tellComponents_eq (line : Nat) (components : List Written.Parameter) (ls : List Lexeme) :
    tellComponents line components ls = (Event.ofComponents line components, .ok ((), ls)) := by
  induction components with
  | nil => rfl
  | cons p ps ih =>
    unfold tellComponents
    cases hname : p.name with
    | none =>
      refine ih.trans ?_
      simp [Event.ofComponents, hname]
    | some name =>
      refine (tell_bind (tellField_eq none _ ls)).trans ?_
      simp [ih, Event.ofComponents, hname]

/-! ### Values behind a name -/

/-- An expression is read behind the lexeme of a kind, if that stands next. -/
theorem expressionAfter_ok {k : TokenKind} {value : Option String}
    (h : (do if ← accept k then pure (some (← expression)) else pure none : Reader _) ls =
      (told, .ok (value, rest))) :
    ∀ raw ∈ value, ∃ l behind, ls = l :: behind ∧ l.kind = k ∧
      expression behind = ([], .ok (raw, rest)) := by
  rintro raw ⟨⟩
  obtain ⟨b, middle, haccept, h₁⟩ := (silent_accept k).bind_ok h
  obtain ⟨rfl, l, rfl, hl⟩ | ⟨rfl, rfl⟩ := accept_ok haccept
  · obtain ⟨raw, left, hexpression, h₂⟩ := silent_expression.bind_ok h₁
    cases h₂
    exact ⟨l, middle, rfl, hl, hexpression⟩
  · cases h₁

theorem silent_groupHere (b : Bracket) : Silent (do
    if ← atKind b.opening then pure (some (← enclosed b)) else pure none) :=
  (silent_atKind _).bind fun _ => .ite ((silent_enclosed _).bind fun _ => silent_pure _)
    (silent_pure _)

/-- A group is read if its opening bracket stands next. -/
theorem groupHere_ok {b : Bracket} {value : Option String}
    (h : (do if ← atKind b.opening then pure (some (← enclosed b)) else pure none : Reader _) ls =
      (told, .ok (value, rest))) :
    rest <:+ ls ∧ ∀ raw ∈ value, kindAt ls 0 = some b.opening ∧
      enclosed b ls = ([], .ok (raw, rest)) := by
  rw [bind_quiet (p := atKind b.opening) rfl] at h
  by_cases hopen : kindAt ls 0 = some b.opening
  · rw [decide_eq_true hopen, if_pos rfl] at h
    obtain ⟨raw, left, henclosed, h₁⟩ := (silent_enclosed b).bind_ok h
    cases h₁
    refine ⟨((proceeds_enclosed b).taken _ _ _ henclosed).1, ?_⟩
    rintro raw ⟨⟩
    exact ⟨hopen, henclosed⟩
  · rw [decide_eq_false hopen, if_neg Bool.false_ne_true] at h
    cases h
    exact ⟨List.suffix_refl _, fun raw hraw => by cases hraw⟩

/-- The brackets behind a name are pairs of brackets. -/
theorem countDims_brackets (ls : List Lexeme) : ∃ pairs, ls = pairs ++ (countDims ls).2 ∧
    ∀ l ∈ pairs, l.kind = .leftBracket ∨ l.kind = .rightBracket := by
  fun_induction countDims ls with
  | case1 l r ls h n rest hcount ih =>
    obtain ⟨pairs, hls, hpairs⟩ := ih
    simp only [Bool.and_eq_true, decide_eq_true_eq] at h
    rw [hcount] at hls
    refine ⟨l :: r :: pairs, by rw [hls]; rfl, ?_⟩
    exact List.forall_mem_cons.mpr ⟨.inl h.1, List.forall_mem_cons.mpr ⟨.inr h.2, hpairs⟩⟩
  | case2 | case3 => exact ⟨[], rfl, fun _ hl => absurd hl List.not_mem_nil⟩

/-- An expression does not end before an opening brace. -/
theorem splitExpression_leftBrace (s : ExpressionState) (ls : List Lexeme) :
    kindAt (splitExpression s ls).2 0 ≠ some .leftBrace := by
  induction ls generalizing s with
  | nil => simp [splitExpression, kindAt]
  | cons l ls ih =>
    rw [splitExpression_cons]
    cases hafter : s.after? l ls with
    | some next => exact ih next
    | none =>
      obtain ⟨hpending, -⟩ := after?_none hafter
      intro hbrace
      have hkind : l.kind = .leftBrace := by simpa [kindAt] using hbrace
      unfold ExpressionState.after? at hafter
      rw [hpending, hkind] at hafter
      cases hafter

/-- A sign that an expression may end before in a declaration. -/
def IsEnd (ls : List Lexeme) : Prop :=
  ∃ l rest, ls = l :: rest ∧ (l.kind = .comma ∨ l.kind = .semicolon)

/-! ### Methods in parts -/

/-- What stands behind the name of a method and before its body. -/
structure MethodFront where
  parameters : List Written.Parameter
  extra : Nat
  throwing : List TypeExpr
  defaultValue : Option String

def methodFront : Reader MethodFront := do
  let params ← parameters
  let extra ← dims
  let throwing ← typesAfter .throwsWord
  let defaultValue ←
    (do if ← accept (.modifier .isDefault) then pure (some (← expression)) else pure none)
  pure ⟨params, extra, throwing, defaultValue⟩

/-- The body of a method, or the semicolon in place of one. -/
def methodBody : Reader (Option String) := do
  if ← atKind .leftBrace then pure (some (← enclosed .brace))
  else
    let _ ← expect .semicolon .methodEnd
    pure none

/-- A method of which all parts are known. -/
def methodOf (o : Opening) (typeParams : List (TypeParameter TypeExpr))
    (returnType : Option TypeExpr) (name : String) (front : MethodFront) (body : Option String) :
    Written.Method :=
  { name, modifiers := o.decorations.modifiers, annotations := o.decorations.annotations,
    typeParameters := typeParams, returnType := returnType.map (·.addDims front.extra),
    parameters := front.parameters, throwing := front.throwing, body,
    defaultValue := front.defaultValue, line := o.line }

theorem methodRest_eq (o : Opening) (typeParams : List (TypeParameter TypeExpr))
    (returnType : Option TypeExpr) (name : String) :
    methodRest o typeParams returnType name = methodFront >>= fun front => methodBody >>=
      fun body => tellMethod o.doc (methodOf o typeParams returnType name front body) := by
  unfold methodFront methodRest methodBody
  simp only [bind_assoc, pure_bind]
  rfl

theorem silent_methodFront : Silent methodFront :=
  silent_parameters.bind fun _ => silent_dims.bind fun _ => (silent_typesAfter _).bind fun _ =>
    (silent_expressionAfter _).bind fun _ => silent_pure _

theorem silent_methodBody : Silent methodBody :=
  (silent_atKind _).bind fun _ => .ite ((silent_enclosed _).bind fun _ => silent_pure _)
    ((silent_expect _ _).bind fun _ => silent_pure _)

/-- What stands before a body begins with the parameters, and a default value ends it. -/
theorem methodFront_ok {front : MethodFront}
    (h : methodFront ls = (told, .ok (front, rest))) : rest <:+ ls ∧
      (∃ behind, parameters ls = ([], .ok (front.parameters, behind))) ∧
      ∀ raw ∈ front.defaultValue, ∃ word behind, word :: behind <:+ ls ∧
        word.kind = .modifier .isDefault ∧ expression behind = ([], .ok (raw, rest)) := by
  obtain ⟨ps, middle, hps, h₁⟩ := silent_parameters.bind_ok h
  have hmiddle := (proceeds_parameters.taken _ _ _ hps).1
  rw [bind_quiet (p := dims) rfl] at h₁
  have hbehind := (proceeds_dims.taken _ _ _ (rfl : dims middle = _)).1.trans hmiddle
  obtain ⟨throwing, left, hthrowing, h₂⟩ := (silent_typesAfter _).bind_ok h₁
  have hleft := ((proceeds_typesAfter _).taken _ _ _ hthrowing).1.trans hbehind
  obtain ⟨value, last, hvalue, h₃⟩ := (silent_expressionAfter _).bind_ok h₂
  have hrest := ((proceeds_expressionAfter _).taken _ _ _ hvalue).1.trans hleft
  cases h₃
  refine ⟨hrest, ⟨middle, hps⟩, fun raw hraw => ?_⟩
  obtain ⟨word, behind, rfl, hword, hrun⟩ := expressionAfter_ok hvalue raw hraw
  exact ⟨word, behind, hleft, hword, hrun⟩

/-- The body of a method is a group, or a semicolon stands in place of it. -/
theorem methodBody_ok {body : Option String} (h : methodBody ls = (told, .ok (body, rest))) :
    rest <:+ ls ∧ (kindAt ls 0 = some .leftBrace ∨ IsEnd ls) ∧
      ∀ raw ∈ body, kindAt ls 0 = some .leftBrace ∧ enclosed .brace ls = ([], .ok (raw, rest)) := by
  rw [methodBody, bind_quiet (p := atKind .leftBrace) rfl] at h
  by_cases hopen : kindAt ls 0 = some .leftBrace
  · rw [decide_eq_true hopen, if_pos rfl] at h
    obtain ⟨raw, left, henclosed, h₁⟩ := (silent_enclosed _).bind_ok h
    cases h₁
    refine ⟨((proceeds_enclosed _).taken _ _ _ henclosed).1, .inl hopen, ?_⟩
    rintro raw ⟨⟩
    exact ⟨hopen, henclosed⟩
  · rw [decide_eq_false hopen, if_neg Bool.false_ne_true] at h
    obtain ⟨s, left, hs, h₁⟩ := (silent_expect _ _).bind_ok h
    obtain ⟨-, l, rfl, hl, -⟩ := expect_ok hs
    cases h₁
    exact ⟨List.suffix_cons l _, .inr ⟨l, _, rfl, .inr hl⟩, fun raw hraw => by cases hraw⟩

/-! ### Declarations at their places -/

/-- A field or an enum constant behind its name: its initializer, up to what is left. -/
structure FieldAt (f : Written.Field) (name : Lexeme) (ls left : List Lexeme) : Prop where
  name : name.text = f.name
  suffix : left <:+ ls
  arguments : f.isEnumConstant → ∀ raw ∈ f.initializer,
    kindAt ls 0 = some .leftParen ∧ enclosed .paren ls = ([], .ok (raw, left))
  expression : f.isEnumConstant = false → IsEnd left ∧ ∀ raw ∈ f.initializer,
    ∃ pairs equals behind, ls = pairs ++ equals :: behind ∧
      (∀ l ∈ pairs, l.kind = .leftBracket ∨ l.kind = .rightBracket) ∧ equals.kind = .equals ∧
      Grammar.expression behind = ([], .ok (raw, left))

/-- A method or a constructor behind its name, up to what its body leaves. -/
structure MethodAt (m : Written.Method) (name : Lexeme) (ls left : List Lexeme) : Prop where
  name : name.text = m.name
  reads : ∃ extra middle,
    methodFront ls = ([], .ok (⟨m.parameters, extra, m.throwing, m.defaultValue⟩, middle)) ∧
    methodBody middle = ([], .ok (m.body, left))

/-- The head of a class behind its name, with the components that a record has. -/
structure ClassAt (c : Written.Class) (components : List Written.Parameter) (name : Lexeme)
    (ls left : List Lexeme) : Prop where
  name : name.text = c.name
  reads : ∃ middle behind, typeParameters ls = ([], .ok (c.typeParameters, middle)) ∧
    (if c.kind = .recordType then parameters else pure []) middle =
      ([], .ok (components, behind)) ∧ left <:+ behind

theorem MethodAt.suffix {m : Written.Method} {name : Lexeme} {left : List Lexeme}
    (h : MethodAt m name ls left) : left <:+ ls := by
  obtain ⟨extra, middle, hfront, hbody⟩ := h.reads
  exact (methodBody_ok hbody).1.trans (methodFront_ok hfront).1

theorem ClassAt.suffix {c : Written.Class} {components : List Written.Parameter} {name : Lexeme}
    {behind left : List Lexeme} (h : ClassAt c components name behind left) : left <:+ behind := by
  obtain ⟨middle, after, hparams, hcomponents, hleft⟩ := h.reads
  have hafter : after <:+ middle := by
    split at hcomponents
    · exact (proceeds_parameters.taken _ _ _ hcomponents).1
    · cases hcomponents
      exact List.suffix_refl _
  exact (hleft.trans hafter).trans (proceeds_typeParameters.taken _ _ _ hparams).1

/-- A passage goes along with every declaration of the lexemes at its place, and all annotations
read are in `A`. -/
structure KeptMembers (L : List Lexeme) (R : Passage) (A : AnnotationUse String → Prop) :
    Prop where
  annotation : ∀ {ls a rest}, ls <:+ L → annotationUse ls = ([], .ok (a, rest)) → A a
  beginSource : ∀ ls, R ls [.beginSource] ls
  package : ∀ {ls rest doc p}, rest <:+ ls → (∀ a ∈ p.annotations, A a) →
    R ls (Event.ofDoc doc .onPackage ++ [.package p]) rest
  imports : ∀ {ls i}, R ls [.imports i] ls
  head : ∀ {c components name ls left doc}, name :: ls <:+ L → ClassAt c components name ls left →
    (∀ a ∈ c.annotations, A a) →
    (∀ p ∈ components, p.name.isSome ∧ ∀ a ∈ p.annotations, A a) → R (name :: ls)
      (Event.ofDoc doc (.onClass c.name) ++ (.beginClass c :: Event.ofRecord c components)) left
  field : ∀ {f name ls left doc}, name :: ls <:+ L → FieldAt f name ls left →
    (∀ a ∈ f.annotations, A a) → R (name :: ls) (Event.ofField doc f) left
  method : ∀ {m name ls left doc}, name :: ls <:+ L → MethodAt m name ls left →
    (∀ a ∈ m.annotations, A a) → (∀ p ∈ m.parameters, ∀ a ∈ p.annotations, A a) →
    R (name :: ls) (Event.ofMethod doc m) left
  endClass : ∀ ls, R ls [.endClass] ls
  endSource : ∀ ls, R ls [.endSource] ls

/-! ### What goes along with declarations goes along with a unit -/

namespace KeptMembers

variable {L : List Lexeme} {R : Passage} {A : AnnotationUse String → Prop} [Joins R]

/-- Two passages of which the first tells nothing. -/
theorem joins_behind {ls middle rest : List Lexeme} {told : List Event} (h : middle <:+ ls)
    (hmore : R middle told rest) : R ls told rest := by
  rw [← List.nil_append told]
  exact Joins.append (Joins.quiet h) hmore

/-- Two passages of which the second tells nothing. -/
theorem joins_before {ls middle rest : List Lexeme} {told : List Event} (h : R ls told middle)
    (hrest : rest <:+ middle) : R ls told rest := by
  rw [← List.append_nil told]
  exact Joins.append h (Joins.quiet hrest)

theorem annotationUse (h : KeptMembers L R A) : Keeps L R annotationUse A := by
  intro ls told a rest hls hrun
  obtain rfl := silent_annotationUse.told_eq hrun
  have hproceeds : Proceeds 0 ls Grammar.annotationUse := by
    refine (proceeds_skip_any 1).bind fun _ rest _ => ?_
    refine (proceeds_qualifiedName.mono (Nat.zero_le 1)).bind fun name rest _ => ?_
    exact .ifAtKind (((proceeds_enclosed _).mono (Nat.zero_le 1)).last _) (proceeds_pure _)
  obtain ⟨hsuffix, -⟩ := hproceeds.taken _ _ _ hrun
  exact ⟨Joins.quiet hsuffix, hsuffix.trans hls, h.annotation hls hrun⟩

theorem annotations (h : KeptMembers L R A) : Keeps L R annotations fun as => ∀ a ∈ as, A a :=
  h.annotationUse.many _

theorem decorations (h : KeptMembers L R A) :
    Keeps L R decorations fun d => ∀ a ∈ d.annotations, A a := by
  refine Keeps.recurse (I := fun _ => True) (fun self hself _ _ => ?_) trivial
  refine keeps_lookAhead.bind fun ls _ => .ite ?_ ?_
  · refine h.annotationUse.bind fun a ha => (hself () trivial).bind fun more hmore => ?_
    exact keeps_pure (List.forall_mem_cons.mpr ⟨ha, hmore⟩)
  · cases modifierAt? ls with
    | none => exact keeps_pure fun _ ha => absurd ha List.not_mem_nil
    | some mn =>
      exact (keeps_skip _).bind fun _ _ => (hself () trivial).bind fun more hmore =>
        keeps_pure hmore

theorem opening (h : KeptMembers L R A) :
    Keeps L R opening fun o => ∀ a ∈ o.decorations.annotations, A a :=
  keeps_docHere.bind fun _ _ => keeps_lineHere.bind fun _ _ =>
    h.decorations.bind fun _ hd => keeps_pure hd

theorem parameter (h : KeptMembers L R A) :
    Keeps L R parameter fun p => ∀ q ∈ p, q.name.isSome ∧ ∀ a ∈ q.annotations, A a := by
  refine h.decorations.bind fun d hd => ?_
  refine (silent_type.keeps fun _ => proceeds_type.mono (Nat.zero_le 1)).bind fun t _ => ?_
  refine h.annotations.bind fun _ _ => (keeps_accept _).bind fun isVarargs _ => ?_
  refine keeps_lookAhead.bind fun ls _ => ?_
  cases receiverLength? ls with
  | some n => exact (keeps_skip n).bind fun _ _ => keeps_pure fun _ hq => by cases hq
  | none =>
    refine (keeps_expect _ (by decide)).bind fun name _ => ?_
    refine (silent_dims.keeps fun _ => proceeds_dims).bind fun extra _ => keeps_pure ?_
    rintro q ⟨⟩
    exact ⟨rfl, hd⟩

theorem parameters (h : KeptMembers L R A) :
    Keeps L R parameters fun ps => ∀ p ∈ ps, p.name.isSome ∧ ∀ a ∈ p.annotations, A a := by
  refine (keeps_expect _ (by decide)).bind fun _ _ => (keeps_accept _).bind fun _ _ => .ite ?_ ?_
  · exact keeps_pure fun _ hp => absurd hp List.not_mem_nil
  · refine (h.parameter.separated _).bind fun ps hps => ?_
    refine (keeps_expect _ (by decide)).bind fun _ _ => keeps_pure fun p hp => ?_
    obtain ⟨q, hq, hp⟩ := List.mem_filterMap.mp hp
    exact hps q hq p hp

theorem packageDeclaration (h : KeptMembers L R A) :
    Keeps L R packageDeclaration fun _ => True := by
  intro ls told u rest hls hrun
  rw [Grammar.packageDeclaration, bind_quiet (p := lookAhead) rfl, bind_quiet (p := docHere) rfl,
    bind_quiet (p := lineHere) rfl] at hrun
  obtain ⟨notes, middle, hnotes, h₁⟩ := silent_annotations.bind_ok hrun
  obtain ⟨-, hmiddle, hall⟩ := h.annotations _ _ _ _ hls hnotes
  have hbehind := (proceeds_annotations.taken _ _ _ hnotes).1
  rw [bind_quiet (p := atKind .packageWord) rfl] at h₁
  split at h₁
  · rw [bind_quiet (p := docHere) rfl] at h₁
    obtain ⟨first, v, left, more, hdoc, h₂, rfl⟩ := Reader.bind_ok h₁
    rw [tellDoc_eq] at hdoc
    cases hdoc
    rw [bind_quiet (p := skip 1) rfl] at h₂
    obtain ⟨name, behind, hname, h₃⟩ := silent_qualifiedName.bind_ok h₂
    obtain ⟨s, last, hs, h₄⟩ := (silent_expect _ _).bind_ok h₃
    obtain ⟨-, l, rfl, -⟩ := expect_ok hs
    cases h₄
    have hrest : rest <:+ ls := ((List.suffix_cons l _).trans
      (proceeds_qualifiedName.taken _ _ _ hname).1).trans ((List.drop_suffix 1 _).trans hbehind)
    exact ⟨h.package hrest hall, hrest.trans hls, trivial⟩
  · cases h₁
    exact ⟨Joins.quiet (List.suffix_refl _), hls, trivial⟩

theorem importDeclaration (h : KeptMembers L R A) :
    Keeps L R importDeclaration fun _ => True := by
  have hname (first : String) : Keeps L R (recurse importedNameBody first) fun _ => True := by
    refine Keeps.recurse (I := fun _ => True) (fun self hself name _ => ?_) trivial
    refine (keeps_accept _).bind fun _ _ => .ite ?_ (keeps_pure trivial)
    refine keeps_lookAhead.bind fun ls _ => .ite ?_ ?_
    · exact (keeps_skip 1).bind fun _ _ => keeps_pure trivial
    · exact (keeps_expect _ (by decide)).bind fun part _ => hself _ trivial
  refine keeps_lineHere.bind fun line _ => (keeps_skip 1).bind fun _ _ => ?_
  refine (keeps_accept _).bind fun isStatic _ => ?_
  refine (keeps_expect _ (by decide)).bind fun first _ => (hname first).bind fun named _ => ?_
  exact (keeps_expect _ (by decide)).bind fun _ _ => keeps_tell fun _ => h.imports

theorem constant (h : KeptMembers L R A) (enum : String) :
    Keeps L R (constantThen enum (pure ())) fun _ => True := by
  refine keeps_docHere.bind fun doc _ => keeps_lineHere.bind fun line _ => ?_
  refine h.annotations.bind fun notes hnotes => ?_
  intro ls told u rest hls hrun
  obtain ⟨name, middle, hname, h₁⟩ := (silent_identifier _).bind_ok hrun
  obtain ⟨-, l, rfl, -, rfl⟩ := expect_ok hname
  obtain ⟨value, left, hvalue, h₂⟩ := (silent_groupHere .paren).bind_ok h₁
  obtain ⟨hsuffix, hgroup⟩ := groupHere_ok hvalue
  have hleft := hsuffix.trans ((List.suffix_cons l middle).trans hls)
  have hfield : FieldAt
      { name := l.text, modifiers := constantModifiers, annotations := notes,
        type := .simple enum, initializer := value, isEnumConstant := true, line } l middle left :=
    ⟨rfl, hsuffix, fun _ => hgroup, fun hkind => by cases hkind⟩
  have hR : R (l :: middle) (Event.ofField doc _) left := h.field hls hfield hnotes
  rw [bind_quiet (p := atKind .leftBrace) rfl] at h₂
  split at h₂
  · obtain ⟨raw, behind, henclosed, h₃⟩ := (silent_enclosed _).bind_ok h₂
    have hbehind := ((proceeds_enclosed _).taken _ _ _ henclosed).1
    obtain ⟨first, v, last, more, htell, h₄, rfl⟩ := Reader.bind_ok h₃
    rw [tellField_eq] at htell
    cases htell
    cases h₄
    rw [List.append_nil]
    exact ⟨joins_before hR hbehind, hbehind.trans hleft, trivial⟩
  · obtain ⟨first, v, last, more, htell, h₄, rfl⟩ := Reader.bind_ok h₂
    rw [tellField_eq] at htell
    cases htell
    cases h₄
    rw [List.append_nil]
    exact ⟨hR, hleft, trivial⟩

/-- The declarators of a field, from a name in the lexemes on. -/
theorem declarators (h : KeptMembers L R A) {o : Opening}
    (ho : ∀ a ∈ o.decorations.annotations, A a) (t : TypeExpr) {name : Lexeme}
    {ls rest : List Lexeme} {told : List Event} (hls : name :: ls <:+ L)
    (hrun : declarators o t name.text ls = (told, .ok ((), rest))) :
    R (name :: ls) told rest ∧ rest <:+ L := by
  unfold Grammar.declarators recurse at hrun
  revert hrun
  -- The name stands directly before the lexemes at each round.
  refine unroll_induction (P := fun s p => ∀ (name : Lexeme) ls told rest, name.text = s →
    name :: ls <:+ L → p ls = (told, .ok ((), rest)) → R (name :: ls) told rest ∧ rest <:+ L)
    (fun _ _ _ _ _ _ _ h => by cases h) (fun self hself s name ls told rest hname hls hrun => ?_)
    _ _ name ls told rest rfl hls
  subst hname
  rw [declaratorsBody, bind_quiet (p := dims) rfl] at hrun
  obtain ⟨pairs, hpairs, hbrackets⟩ := countDims_brackets ls
  obtain ⟨value, left, hvalue, h₁⟩ := (silent_expressionAfter _).bind_ok hrun
  have hexpression := expressionAfter_ok hvalue
  have hleft : left <:+ ls :=
    ((proceeds_expressionAfter _).taken _ _ _ hvalue).1.trans ⟨pairs, hpairs.symm⟩
  have hplace : left <:+ L := hleft.trans ((List.suffix_cons name ls).trans hls)
  obtain ⟨first, u, middle, more, hfield, h₂, rfl⟩ := Reader.bind_ok h₁
  rw [tellField_eq] at hfield
  cases hfield
  obtain ⟨b, next, haccept, h₃⟩ := (silent_accept _).bind_ok h₂
  -- What is told and left behind the field, and what stands behind its expression.
  obtain ⟨hend, hmore, hrest⟩ : IsEnd left ∧ R left more rest ∧ rest <:+ L := by
    obtain ⟨rfl, comma, rfl, hcomma⟩ | ⟨rfl, rfl⟩ := accept_ok haccept
    · obtain ⟨s, behind, hs, h₄⟩ := (silent_identifier _).bind_ok h₃
      obtain ⟨-, name', rfl, -, hname'⟩ := expect_ok hs
      obtain ⟨hmore, hrest⟩ := hself s name' behind more rest hname'
        ((List.suffix_cons comma _).trans hplace) h₄
      exact ⟨⟨comma, _, rfl, .inl hcomma⟩, joins_behind (List.suffix_cons comma _) hmore, hrest⟩
    · obtain ⟨s, behind, hs, h₄⟩ := (silent_expect _ _).bind_ok h₃
      obtain ⟨-, semicolon, rfl, hsemicolon, -⟩ := expect_ok hs
      cases h₄
      exact ⟨⟨semicolon, _, rfl, .inr hsemicolon⟩, Joins.quiet (List.suffix_cons semicolon _),
        (List.suffix_cons semicolon _).trans hplace⟩
  refine ⟨Joins.append (h.field hls ⟨rfl, hleft, ?_, fun _ => ⟨hend, ?_⟩⟩ ho) hmore, hrest⟩
  · exact fun hkind => by cases hkind
  intro raw hraw
  obtain ⟨equals, behind, hequals, hkind, hrun⟩ := hexpression raw hraw
  exact ⟨pairs, equals, behind, by rw [← hequals]; exact hpairs, hbrackets, hkind, hrun⟩

/-- A method or a constructor, from its name in the lexemes on. -/
theorem methodRest (h : KeptMembers L R A) {o : Opening}
    (ho : ∀ a ∈ o.decorations.annotations, A a) (typeParams : List (TypeParameter TypeExpr))
    (returnType : Option TypeExpr) {name : Lexeme} {ls rest : List Lexeme} {told : List Event}
    (hls : name :: ls <:+ L)
    (hrun : methodRest o typeParams returnType name.text ls = (told, .ok ((), rest))) :
    R (name :: ls) told rest ∧ rest <:+ L := by
  have hbehind := (List.suffix_cons name ls).trans hls
  rw [methodRest_eq] at hrun
  obtain ⟨front, middle, hfront, h₁⟩ := silent_methodFront.bind_ok hrun
  obtain ⟨body, left, hbody, h₂⟩ := silent_methodBody.bind_ok h₁
  rw [tellMethod_eq] at h₂
  cases h₂
  obtain ⟨-, ⟨after, hparameters⟩, -⟩ := methodFront_ok hfront
  obtain ⟨-, -, hnotes⟩ := h.parameters _ _ _ _ hbehind hparameters
  have hmethod : MethodAt (methodOf o typeParams returnType name.text front body) name ls rest :=
    ⟨rfl, front.extra, middle, hfront, hbody⟩
  refine ⟨h.method hls hmethod ho fun p hp => (hnotes p hp).2, hmethod.suffix.trans hbehind⟩

theorem isWordAt_zero {ls : List Lexeme} {word : String} (h : isWordAt ls 0 word) :
    ∃ l rest, ls = l :: rest ∧ l.text = word := by
  cases ls with
  | nil => cases h
  | cons l rest => exact ⟨l, rest, rfl, by simp_all [isWordAt]⟩

theorem memberTail (h : KeptMembers L R A) {o : Opening}
    (ho : ∀ a ∈ o.decorations.annotations, A a) (owner : ClassKind) (className : String)
    (typeParams : List (TypeParameter TypeExpr)) :
    Keeps L R (memberTail owner className o typeParams) fun _ => True := by
  intro ls told u rest hls hrun
  rw [Grammar.memberTail, bind_quiet (p := lookAhead) rfl] at hrun
  split at hrun
  · rename_i hname
    rw [Bool.and_eq_true] at hname
    obtain ⟨name, ls, rfl, hword⟩ := isWordAt_zero hname.1
    rw [bind_quiet (p := skip 1) rfl, ← hword] at hrun
    have ⟨hR, hrest⟩ := h.methodRest ho _ _ hls hrun
    exact ⟨hR, hrest, trivial⟩
  · split at hrun
    · have hcompact : Keeps L R (skip 1 >>= fun _ => enclosed .brace >>= fun _ => pure ())
          fun _ => True :=
        (keeps_skip 1).bind fun _ _ => (KeptParts.enclosed _).bind fun _ _ => keeps_pure trivial
      exact hcompact ls told u rest hls hrun
    · obtain ⟨t, middle, ht, h₁⟩ := silent_type.bind_ok hrun
      have hbehind := (proceeds_type.taken _ _ _ ht).1
      obtain ⟨s, left, hs, h₂⟩ := (silent_identifier _).bind_ok h₁
      obtain ⟨-, name, rfl, -, rfl⟩ := expect_ok hs
      have hmiddle := hbehind.trans hls
      rw [bind_quiet (p := atKind .leftParen) rfl] at h₂
      split at h₂
      · have ⟨hR, hrest⟩ := h.methodRest ho _ _ hmiddle h₂
        exact ⟨joins_behind hbehind hR, hrest, trivial⟩
      · have ⟨hR, hrest⟩ := h.declarators ho t hmiddle h₂
        exact ⟨joins_behind hbehind hR, hrest, trivial⟩

theorem classOpening (h : KeptMembers L R A) (kind : ClassKind) {o : Opening}
    (ho : ∀ a ∈ o.decorations.annotations, A a) :
    Keeps L R (classOpening kind o) fun _ => True := by
  intro ls told u rest hls hrun
  rw [Grammar.classOpening, bind_quiet (p := skip (kindLength kind)) rfl] at hrun
  have hskip := List.drop_suffix (kindLength kind) ls
  obtain ⟨s, behind, hs, h₁⟩ := (silent_identifier _).bind_ok hrun
  obtain ⟨-, name, hname, -, rfl⟩ := expect_ok hs
  rw [hname] at hskip
  have hplace := hskip.trans hls
  have hbehind := (List.suffix_cons name behind).trans hplace
  obtain ⟨params, middle, hparams, h₂⟩ := silent_typeParameters.bind_ok h₁
  have hmiddle := (proceeds_typeParameters.taken _ _ _ hparams).1.trans hbehind
  have hcomponents : Keeps L R (if kind = .recordType then Grammar.parameters else pure [])
      fun ps => ∀ p ∈ ps, p.name.isSome ∧ ∀ a ∈ p.annotations, A a :=
    .ite h.parameters (keeps_pure fun _ hp => absurd hp List.not_mem_nil)
  have hsilent : Silent (if kind = .recordType then Grammar.parameters else pure []) :=
    .ite silent_parameters (silent_pure _)
  obtain ⟨components, after, hrecord, h₃⟩ := hsilent.bind_ok h₂
  obtain ⟨-, hafter, hnotes⟩ := hcomponents _ _ _ _ hmiddle hrecord
  obtain ⟨extending, ls₄, hextending, h₄⟩ := (silent_extendedTypes kind).bind_ok h₃
  obtain ⟨implementing, ls₅, himplementing, h₅⟩ := (silent_typesAfter _).bind_ok h₄
  obtain ⟨permitting, ls₆, hpermitting, h₆⟩ := silent_permittedTypes.bind_ok h₅
  have hlast : ls₆ <:+ after := ((proceeds_permittedTypes.taken _ _ _ hpermitting).1.trans
    ((proceeds_typesAfter _).taken _ _ _ himplementing).1).trans
    ((proceeds_extendedTypes kind).taken _ _ _ hextending).1
  obtain ⟨_, _, _, more, hdoc, h₇, rfl⟩ := Reader.bind_ok h₆
  rw [tellDoc_eq] at hdoc
  cases hdoc
  obtain ⟨_, _, _, more, hbegin, h₈, rfl⟩ := Reader.bind_ok h₇
  cases hbegin
  have hend {left : List Lexeme} {more : List Event}
      (hrun : (expect .leftBrace .classOpening >>= fun _ => pure name.text) left =
        (more, .ok (u, rest))) : more = [] ∧ rest <:+ left := by
    obtain ⟨s, behind, hs, hpure⟩ := (silent_expect _ _).bind_ok hrun
    obtain ⟨-, l, rfl, -⟩ := expect_ok hs
    cases hpure
    exact ⟨rfl, List.suffix_cons l _⟩
  obtain ⟨c, hc⟩ : ∃ c : Written.Class, c =
      { kind, name := name.text, modifiers := o.decorations.modifiers,
        annotations := o.decorations.annotations, typeParameters := params, extending,
        implementing, permitting, line := o.line } := ⟨_, rfl⟩
  have hmore : more = Event.ofRecord c components ∧ rest <:+ ls₆ := by
    subst hc
    unfold Event.ofRecord
    split at h₈
    · obtain ⟨_, _, _, more, hfields, h₉, rfl⟩ := Reader.bind_ok h₈
      rw [tellComponents_eq] at hfields
      cases hfields
      obtain ⟨_, _, _, more, hcanonical, h₁₀, rfl⟩ := Reader.bind_ok h₉
      rw [tellMethod_eq] at hcanonical
      cases hcanonical
      obtain ⟨rfl, hrest⟩ := hend h₁₀
      exact ⟨by rw [if_pos ‹_›, List.append_nil], hrest⟩
    · obtain ⟨rfl, hrest⟩ := hend h₈
      exact ⟨by rw [if_neg ‹_›], hrest⟩
  obtain ⟨rfl, hrest⟩ := hmore
  have hleft := hrest.trans hlast
  have hhead : R (name :: behind)
      (Event.ofDoc o.doc (.onClass c.name) ++ (.beginClass c :: Event.ofRecord c components))
      rest := by
    subst hc
    exact h.head hplace ⟨rfl, middle, after, hparams, hrecord, hleft⟩ ho hnotes
  subst hc
  exact ⟨joins_behind hskip hhead, hleft.trans hafter, trivial⟩

/-- What goes along with every declaration goes along with all parts of a unit. -/
theorem keptParts (h : KeptMembers L R A) :
    KeptParts L R fun o => ∀ a ∈ o.decorations.annotations, A a where
  opening := h.opening
  package := h.packageDeclaration
  imports := h.importDeclaration
  constant := h.constant
  member owner className _ ho :=
    (silent_typeParameters.keeps fun _ => proceeds_typeParameters).bind fun params _ =>
      h.memberTail ho owner className params
  head kind _ ho := h.classOpening kind ho
  beginSource := h.beginSource
  endSource := h.endSource
  endClass := h.endClass

end KeptMembers

end Grammar

end JavaModel
