import JavaModel.Proofs.Grammar.Parts
import JavaModel.Proofs.Grammar.TakingTypes

/-! What members and type declarations take of a text. Members are quiet but for their expressions,
which nest if they are told so; a declaration tells as many classes outside all others as it takes
words that begin one. -/

namespace JavaModel

namespace Grammar

open Reader Lexeme

variable {α β : Type} {ls : List Lexeme} {C D : List Event → List Lexeme → Prop}

/-! ### Events -/

theorem takes_event (e : Event) :
    Takes ls (tell e) fun told taken => told = [e] ∧ taken = [] := by
  rintro told b rest - ⟨⟩ -
  exact ⟨[], rfl, rfl, rfl⟩

theorem takes_tell {e : Event}
    (h : ∀ depth more, outermostClasses depth (e :: more) = outermostClasses depth more) :
    Takes ls (tell e) Quiet := by
  refine (takes_event e).mono ?_
  rintro _ _ ⟨rfl, rfl⟩
  exact ⟨⟨nested_nil, fun depth => h (depth + 1)⟩, by simp [h], rfl⟩

theorem takes_tellDoc (doc : Option String) (target : DocTarget) :
    Takes ls (tellDoc doc target) Quiet := by
  cases doc with
  | none => exact takes_pure _
  | some text => exact takes_tell fun _ _ => rfl

theorem takes_tellField (doc : Option String) (f : Written.Field) :
    Takes ls (tellField doc f) Quiet := by
  refine (takes_tellDoc _ _).andThen Outside.after_quiet fun _ rest => ?_
  exact (takes_tell fun _ _ => rfl).andThen Outside.after_quiet fun _ rest =>
    takes_tell fun _ _ => rfl

theorem takes_tellMethod (doc : Option String) (m : Written.Method) :
    Takes ls (tellMethod doc m) Quiet := by
  refine (takes_tellDoc _ _).andThen Outside.after_quiet fun _ rest => ?_
  exact (takes_tell fun _ _ => rfl).andThen Outside.after_quiet fun _ rest =>
    takes_tell fun _ _ => rfl

theorem takes_tellComponents (line : Nat) (components : List Written.Parameter) :
    Takes ls (tellComponents line components) Quiet := by
  induction components generalizing ls with
  | nil => exact takes_pure _
  | cons p ps ih =>
    unfold tellComponents
    cases p.name with
    | none => exact ih
    | some name =>
      exact (takes_tellField _ _).andThen Outside.after_quiet fun _ rest => ih

/-! ### Expressions -/

theorem Outside.inside {m n : Nat} {p : Reader α} (h : Takes ls p (Outside m n)) :
    Takes ls p Inside := h.mono fun _ _ h => h.toInside

/-- A reader that is quiet and then one of a member. -/
theorem Takes.inside {p : Reader α} {f : α → Reader β} (hp : Takes ls p Quiet)
    (hf : ∀ a rest, Takes rest (f a) Inside) : Takes ls (p >>= f) Inside :=
  hp.andThen (fun _ _ _ _ h h' => h.toInside.append h') hf

/-- A reader that succeeds tells an expression. -/
def TellsExpression (raw : String) (p : Reader α) : Prop :=
  ∀ ls told a rest, p ls = (told, .ok (a, rest)) → ∃ e ∈ told, raw ∈ e.expressions

theorem TellsExpression.before {raw : String} {p : Reader α} (h : TellsExpression raw p)
    (f : α → Reader β) : TellsExpression raw (p >>= f) := by
  intro ls told b rest hrun
  obtain ⟨first, a, middle, more, hfirst, -, rfl⟩ := bind_ok hrun
  obtain ⟨e, he, hraw⟩ := h ls first a middle hfirst
  exact ⟨e, List.mem_append_left _ he, hraw⟩

theorem TellsExpression.behind {raw : String} {p : Reader α} {f : α → Reader β}
    (h : ∀ a, TellsExpression raw (f a)) : TellsExpression raw (p >>= f) := by
  intro ls told b rest hrun
  obtain ⟨first, a, middle, more, -, hmore, rfl⟩ := bind_ok hrun
  obtain ⟨e, he, hraw⟩ := h a middle more b rest hmore
  exact ⟨e, List.mem_append_right _ he, hraw⟩

theorem tellsExpression_tell {raw : String} {e : Event} (h : raw ∈ e.expressions) :
    TellsExpression raw (tell e) := by
  rintro ls told a rest ⟨⟩
  exact ⟨e, List.mem_singleton_self e, h⟩

theorem tellsExpression_tellField {raw : String} {f : Written.Field}
    (h : raw ∈ (Event.beginField f).expressions) (doc : Option String) :
    TellsExpression raw (tellField doc f) :=
  .behind fun _ => (tellsExpression_tell h).before _

theorem tellsExpression_tellMethod {raw : String} {m : Written.Method}
    (h : raw ∈ (Event.beginMethod m).expressions) (doc : Option String) :
    TellsExpression raw (tellMethod doc m) :=
  .behind fun _ => (tellsExpression_tell h).before _

/-- An expression takes what nests if it says so, read by itself. -/
theorem nested_of_expression {told : List Event} {raw : String} {rest : List Lexeme}
    (htidy : Tidy ls) (h : expression ls = (told, .ok (raw, rest))) (hnest : Nested (lexemes raw)) :
    ∃ taken, ls = taken ++ rest ∧ Nested taken := by
  obtain ⟨-, inner, hls, -, hinner, -, rfl⟩ := expression_ok h
  obtain ⟨first, inner, rfl⟩ := List.exists_cons_of_ne_nil hinner
  obtain ⟨text, front, hfront⟩ := htidy.place
  refine ⟨first :: inner, hls, ?_⟩
  have hreads : Rereads _ (first :: inner) :=
    @Lexeme.rereads_from text front inner rest first (by rw [← hfront, hls])
  have hkinds := congrArg (List.map Prod.fst) hreads.2
  rw [List.map_map, List.map_map] at hkinds
  change closes [] ((first :: inner).map kind)
  have hsame : (lexemes (bareText (first :: inner))).map kind = (first :: inner).map kind := hkinds
  rw [← hsame]
  exact hnest

/-- An expression that may stand behind a lexeme of a kind, and what tells it later. -/
theorem takes_expressionAfter {k : TokenKind} (hk : isPlain k) {f : Option String → Reader β}
    (hf : ∀ value rest, Takes rest (f value) Inside)
    (htells : ∀ raw, TellsExpression raw (f (some raw))) :
    Takes ls ((do if ← accept k then pure (some (← expression)) else pure none) >>= f) Inside := by
  rw [bind_assoc]
  refine (takes_accept hk).inside fun isThere rest => ?_
  rw [ite_bind]
  refine .ite (fun _ => ?_) fun _ => by rw [pure_bind]; exact hf none rest
  simp only [bind_assoc, pure_bind]
  intro told b last htidy hrun hnest
  obtain ⟨first, raw, middle, more, hfirst, hmore, rfl⟩ := bind_ok hrun
  obtain ⟨hnone, -⟩ := expression_ok hfirst
  subst hnone
  obtain ⟨e, he, hraw⟩ := htells raw middle more b last hmore
  obtain ⟨taken, rfl, hnested⟩ := nested_of_expression htidy hfirst (hnest e he raw hraw)
  obtain ⟨taken', rfl, hinside⟩ := hf (some raw) middle more b last htidy.behind hmore hnest
  exact ⟨taken ++ taken', (List.append_assoc ..).symm,
    Inside.append ⟨hnested, by simp⟩ hinside⟩

/-! ### Members -/

theorem takes_declarators (o : Opening) (t : TypeExpr) (name : String) :
    Takes ls (declarators o t name) Inside := by
  refine Takes.recurse (fun self hself name ls => ?_) name ls
  refine takes_dims.inside fun extra rest => ?_
  refine takes_expressionAfter (k := .equals) rfl (fun initializer rest => ?_) fun raw => ?_
  · refine (takes_tellField _ _).inside fun _ rest => ?_
    refine (takes_accept rfl).inside fun _ rest => .ite (fun _ => ?_) fun _ => ?_
    · exact (takes_identifier _).inside fun next rest => hself next rest
    · exact Outside.inside ((takes_expect rfl _).last fun _ => ())
  · exact (tellsExpression_tellField (List.mem_singleton_self raw) _).before _

theorem takes_methodRest (o : Opening) (typeParams : List (TypeParameter TypeExpr))
    (returnType : Option TypeExpr) (name : String) :
    Takes ls (methodRest o typeParams returnType name) Inside := by
  refine takes_parameters.inside fun params rest => ?_
  refine takes_dims.inside fun extra rest => ?_
  refine (takes_typesAfter rfl).inside fun throwing rest => ?_
  refine takes_expressionAfter (k := .modifier .isDefault) rfl (fun value rest => ?_) fun raw => ?_
  · have hbody : Takes rest (do
        if ← atKind .leftBrace then pure (some (← enclosed .brace))
        else
          let _ ← expect .semicolon .methodEnd
          pure none) Quiet :=
      takes_ifAtKind (fun hbrace => (takes_enclosed (b := .brace) hbrace).last some)
        ((takes_expect rfl _).last fun _ => none)
    exact hbody.inside fun body rest => Outside.inside (takes_tellMethod _ _)
  · exact .behind fun _ => tellsExpression_tellMethod (List.mem_singleton_self raw) _

theorem takes_constantEnd {self : Unit → Reader Unit} (hself : ∀ ls, Takes ls (self ()) Inside) :
    Takes ls (constantEnd self) Inside := by
  refine (takes_accept rfl).inside fun _ rest => .ite (fun _ => hself rest) fun _ => takes_look ?_
  split
  · rename_i hsemicolon
    obtain ⟨l, rest, rfl, hl⟩ := kindAt_zero hsemicolon
    exact Outside.inside (takes_skip_one (hl ▸ rfl))
  · exact Outside.inside (takes_pure _)
  · exact takes_fail _

theorem takes_constants (enum : String) : Takes ls (constants enum) Inside := by
  refine Takes.recurse (fun self hself _ ls => ?_) () ls
  rw [constantsBody_eq]
  refine takes_look ?_
  split
  · rename_i hsemicolon
    obtain ⟨l, rest, rfl, hl⟩ := kindAt_zero hsemicolon
    exact Outside.inside (takes_skip_one (hl ▸ rfl))
  · exact Outside.inside (takes_pure _)
  · exact Outside.inside (takes_pure _)
  · refine takes_docHere.inside fun doc rest => ?_
    refine takes_lineHere.inside fun line rest => ?_
    refine takes_annotations.inside fun notes rest => ?_
    refine (takes_identifier _).inside fun name rest => ?_
    have hinitializer : Takes rest (do
        if ← atKind .leftParen then pure (some (← enclosed .paren)) else pure none) Quiet :=
      takes_ifAtKind (fun hparen => (takes_enclosed (b := .paren) hparen).last some) (takes_pure _)
    refine hinitializer.inside fun initializer rest => ?_
    have hend (rest : List Lexeme) : Takes rest (constantEnd self) Inside :=
      takes_constantEnd (hself ())
    refine takes_ifAtKind (fun hbrace => ?_) ((takes_tellField _ _).inside fun _ => hend)
    refine (takes_enclosed (b := .brace) hbrace).inside fun _ rest => ?_
    exact (takes_tellField _ _).inside fun _ => hend

/-! ### Type declarations -/

/-- A declaration ends with a semicolon or a closing brace. -/
def Ends (taken : List Lexeme) : Prop :=
  ∃ l ∈ taken.getLast?, l.kind = .semicolon ∨ l.kind = .rightBrace

instance (taken : List Lexeme) : Decidable (Ends taken) :=
  inferInstanceAs (Decidable (∃ l ∈ taken.getLast?, l.kind = .semicolon ∨ l.kind = .rightBrace))

theorem Ends.append {taken : List Lexeme} (h : Ends taken) (front : List Lexeme) :
    Ends (front ++ taken) := by
  obtain ⟨l, hl, hkind⟩ := h
  refine ⟨l, ?_, hkind⟩
  rw [List.getLast?_append, Option.mem_def.mp hl]
  rfl

/-- Lexemes with braces around what stands inside a class. -/
structure Block (told : List Event) (taken : List Lexeme) : Prop extends Inside told taken where
  words : outerWords 0 0 (taken.map kind) = 0
  ends : Ends taken

/-- What is told and taken behind the beginning of a class, up to its end. -/
structure Ending (told : List Event) (taken : List Lexeme) : Prop where
  nested : Nested taken
  ended : ∀ depth more, outermostClasses (depth + 1) (told ++ more) = outermostClasses depth more
  words : outerWords 0 0 (taken.map kind) = 0
  ends : Ends taken

/-- A declaration: as many classes are told as words are taken that begin one. -/
def Declared (told : List Event) (taken : List Lexeme) : Prop :=
  (∃ n, Outside n n told taken) ∧ Ends taken

theorem Block.ending {told : List Event} {taken : List Lexeme} (h : Block told taken) :
    Ending (told ++ [.endClass]) taken := by
  refine ⟨h.nested, fun depth more => ?_, h.words, h.ends⟩
  rw [List.append_assoc, h.ended]
  rfl

theorem Ending.after_quiet (t : List Event) (x : List Lexeme) (t' : List Event) (x' : List Lexeme)
    (h : Quiet t x) (h' : Ending t' x') : Ending (t ++ t') (x ++ x') := by
  refine ⟨h.nested.append h'.nested, fun depth more => ?_, ?_, h'.ends.append x⟩
  · rw [List.append_assoc, h.ended, h'.ended]
  · rw [words_append h.nested, h.words, h'.words]

/-- A declaration behind the words for its kind. -/
def Begun (kind : ClassKind) (told : List Event) (taken : List Lexeme) : Prop :=
  Outside (wordCount kind) 0 told taken ∧ Ends taken

theorem Begun.after_quiet {kind : ClassKind} (t : List Event) (x : List Lexeme) (t' : List Event)
    (x' : List Lexeme) (h : Quiet t x) (h' : Begun kind t' x') :
    Begun kind (t ++ t') (x ++ x') :=
  ⟨Outside.after_quiet t x t' x' h h'.1, h'.2.append x⟩

/-- A class that begins and ends counts outside all others, unless it is a record. -/
theorem Ending.begin {told : List Event} {taken : List Lexeme} {c : Written.Class}
    {kind : ClassKind} (h : Ending told taken) (hkind : c.kind = kind) :
    Begun kind (.beginClass c :: told) taken := by
  refine ⟨⟨⟨h.nested, fun depth more => ?_⟩, fun more => ?_, h.words⟩, h.ends⟩
  · rw [List.cons_append, outermostClasses, h.ended, if_neg (by omega), Nat.zero_add]
  · rw [List.cons_append, outermostClasses, h.ended, hkind]
    simp [wordCount]

theorem takes_skip_kind {kind : ClassKind} (h : declarationKind? ls = some kind) :
    Takes ls (skip (kindLength kind)) (Outside 0 (wordCount kind)) := by
  obtain ⟨front, rest, rfl, hlength, hflat, hcount⟩ := declarationKind?_spec h
  rintro told b rest' - hrun -
  rw [skip, ← hlength, List.drop_left] at hrun
  cases hrun
  exact ⟨front, rfl, hcount ▸ outside_flat hflat⟩

/-- A reader of type declarations takes a declaration where one of the kind stands. -/
def TakesTypes (readClass : ReadClass) : Prop :=
  ∀ kind o ls, declarationKind? ls = some kind → Takes ls (readClass (kind, o)) Declared

theorem takes_opening : Takes ls opening Quiet := by
  refine takes_docHere.andThen Outside.after_quiet fun doc rest => ?_
  refine takes_lineHere.andThen Outside.after_quiet fun line rest => ?_
  exact takes_decorations.last fun d => Opening.mk d doc line

theorem takes_member {readClass : ReadClass} (h : TakesTypes readClass) (owner : ClassKind)
    (className : String) : Takes ls (member readClass owner className) Inside := by
  refine takes_opening.inside fun o rest => takes_look ?_
  split
  · rename_i kind hkind
    exact (h kind o rest hkind).mono fun _ _ ⟨⟨_, hdeclared⟩, _⟩ => hdeclared.toInside
  · refine takes_typeParameters.inside fun typeParams rest => takes_look ?_
    refine .ite (fun hname => ?_) fun _ => .ite (fun hname => ?_) fun _ => ?_
    · simp only [Bool.and_eq_true] at hname
      obtain ⟨l, hl, hkind⟩ := isWordAt_eq hname.1
      cases rest with
      | nil => cases hl
      | cons l' rest =>
        cases hl
        exact (takes_skip_one (hkind ▸ rfl)).inside fun _ rest => takes_methodRest _ _ _ _
    · simp only [Bool.and_eq_true, decide_eq_true_eq] at hname
      obtain ⟨⟨hword, hbrace⟩, _⟩ := hname
      obtain ⟨l, hl, hkind⟩ := isWordAt_eq hword
      cases rest with
      | nil => cases hl
      | cons l' rest =>
        cases hl
        have henclosed := @takes_enclosed rest .brace hbrace
        exact Outside.inside (takes_behind (hkind ▸ rfl) Outside.after_quiet
          (henclosed.last fun _ => ()))
    · refine takes_type.inside fun t rest => ?_
      refine (takes_identifier _).inside fun name rest => ?_
      refine takes_ifAtKind (fun _ => takes_methodRest _ _ _ _) ?_
      exact takes_declarators _ _ _

theorem takes_members {readClass : ReadClass} (h : TakesTypes readClass) (owner : ClassKind)
    (className : String) :
    Takes ls (recurse (membersBody readClass owner className) ()) (Upto .rightBrace Inside) := by
  have hinside : Inside [] [] := quiet_nil.toInside
  have hafter := Upto.after (k := .rightBrace) (C := Quiet) (D := Inside)
    fun _ _ _ _ h h' => h.toInside.append h'
  refine Takes.recurse (fun self hself _ ls => takes_look ?_) () ls
  split
  · exact takes_fail _
  · rename_i hclose
    obtain ⟨l, rest, rfl, hl⟩ := kindAt_zero hclose
    rintro told b rest' - ⟨⟩ -
    exact ⟨[l], rfl, [], l, rfl, hl, hinside⟩
  · rename_i hsemicolon
    obtain ⟨l, rest, rfl, hl⟩ := kindAt_zero hsemicolon
    exact (takes_skip_one (hl ▸ rfl)).andThen hafter fun _ rest => hself () rest
  · rename_i hbrace
    exact (takes_enclosed (b := .brace) hbrace).andThen hafter fun _ rest => hself () rest
  · rename_i k _ _ _ hkind
    refine .ite (fun hstatic => ?_) fun _ => ?_
    · simp only [Bool.and_eq_true, decide_eq_true_eq] at hstatic
      cases ls with
      | nil => simp [kindAt] at hstatic
      | cons l rest =>
        have hl : isPlain l.kind := by
          have hk : l.kind = k := by simpa [kindAt] using hkind
          rw [hk, hstatic.1]
          rfl
        refine takes_behind hl hafter ?_
        exact (takes_enclosed (b := .brace) hstatic.2).andThen hafter fun _ rest => hself () rest
    · exact (takes_member h owner className).andThen
        (Upto.after fun _ _ _ _ => Inside.append) fun _ rest => hself () rest

theorem takes_classBody {readClass : ReadClass} (h : TakesTypes readClass) (kind : ClassKind)
    (name : String) : Takes ls (classBody readClass kind name) Block := by
  refine takes_block (b := .brace) (C := Inside) ?_ fun rest => .ite (fun _ => ?_) fun _ => ?_
  · intro o inner close told ho hclose h
    have hquiet := quiet_enclosed ho h.nested hclose
    exact ⟨⟨hquiet.nested, h.ended⟩, hquiet.words,
      close, List.getLast?_concat (l := o :: inner), .inr hclose⟩
  · exact (takes_constants name).andThen (Upto.after fun _ _ _ _ => Inside.append) fun _ rest =>
      takes_members h kind name
  · exact takes_members h kind name

theorem takes_extendedTypes (kind : ClassKind) : Takes ls (extendedTypes kind) Quiet := by
  cases kind with
  | plainClass =>
    refine (takes_accept rfl).andThen Outside.after_quiet fun _ rest =>
      .ite (fun _ => ?_) fun _ => takes_pure _
    exact takes_type.last fun t => [t]
  | interfaceType => exact takes_typesAfter rfl
  | enumType | annotationType | recordType => exact takes_pure _

theorem takes_permittedTypes : Takes ls permittedTypes Quiet := by
  refine takes_look (.ite (fun hword => ?_) fun _ => takes_pure _)
  obtain ⟨l, hl, hkind⟩ := isWordAt_eq hword
  cases ls with
  | nil => cases hl
  | cons l' rest =>
    cases hl
    exact takes_behind (hkind ▸ rfl) Outside.after_quiet takes_typeList

theorem takes_classBodyOf {self : ReadClass} (h : TakesTypes self) :
    TakesTypes (classBodyOf self) := by
  intro kind o ls hkind
  refine (takes_skip_kind hkind).andThen (D := Begun kind) ?_ fun _ rest => ?_
  · intro t x t' x' hC hD
    have happend := hC.append hD.1
    rw [Nat.zero_add, Nat.add_zero] at happend
    exact ⟨⟨_, happend⟩, hD.2.append x⟩
  refine (takes_identifier _).andThen Begun.after_quiet fun name rest => ?_
  refine takes_typeParameters.andThen Begun.after_quiet fun typeParams rest => ?_
  have hcomponents : Takes rest (if kind = .recordType then parameters else pure []) Quiet :=
    .ite (fun _ => takes_parameters) fun _ => takes_pure _
  refine hcomponents.andThen Begun.after_quiet fun components rest => ?_
  refine (takes_extendedTypes kind).andThen Begun.after_quiet fun extending rest => ?_
  refine (takes_typesAfter rfl).andThen Begun.after_quiet fun implementing rest => ?_
  refine takes_permittedTypes.andThen Begun.after_quiet fun permitting rest => ?_
  refine (takes_tellDoc _ _).andThen Begun.after_quiet fun _ rest => ?_
  have hend (rest : List Lexeme) : Takes rest (do
      classBody self kind name
      tell .endClass) Ending := by
    refine (takes_classBody h kind name).andThen ?_ fun _ rest => takes_event .endClass
    rintro t x _ _ hblock ⟨rfl, rfl⟩
    rw [List.append_nil]
    exact hblock.ending
  refine (takes_event _).andThen (D := Ending) ?_ fun _ rest => .ite (fun _ => ?_) fun _ => ?_
  · rintro _ _ t' x' ⟨rfl, rfl⟩ hending
    exact hending.begin rfl
  · refine (takes_tellComponents _ _).andThen Ending.after_quiet fun _ rest => ?_
    exact (takes_tellMethod _ _).andThen Ending.after_quiet fun _ rest => hend rest
  · exact hend rest

theorem takes_classDeclaration : TakesTypes classDeclaration := by
  intro kind o ls hkind
  refine Takes.recurse_at (A := fun start ls => declarationKind? ls = some start.1)
    (fun self hself start ls hstart => ?_) (kind, o) ls hkind
  exact takes_classBodyOf (fun kind o ls h => hself (kind, o) ls h) start.1 start.2 ls hstart

theorem Declared.after_quiet (t : List Event) (x : List Lexeme) (t' : List Event)
    (x' : List Lexeme) (h : Quiet t x) (h' : Declared t' x') : Declared (t ++ t') (x ++ x') := by
  obtain ⟨⟨n, houtside⟩, hends⟩ := h'
  exact ⟨⟨n, Outside.after_quiet t x t' x' h houtside⟩, hends.append x⟩

theorem takes_typeDeclaration : Takes ls typeDeclaration Declared := by
  refine takes_opening.andThen Declared.after_quiet fun o rest => takes_look ?_
  split
  · rename_i kind hkind
    exact takes_classDeclaration kind o rest hkind
  · exact takes_fail _

end Grammar

end JavaModel
