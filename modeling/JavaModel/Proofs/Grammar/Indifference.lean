import JavaModel.Proofs.Grammar.Places
import JavaModel.Proofs.Grammar.Twins

/-! Parsing sees tokens, and comments where declarations begin. Two texts of the same tokens whose
documentation comments agree there are told alike, up to lines and raw text, and neither is read
further than the other. -/

namespace JavaModel

/-- The documentation comment before the next lexeme. -/
def docAt (ls : List Lexeme) : Option String := ls.head?.bind Lexeme.doc

namespace Reader

variable {α α' β : Type} {R : α → α' → Prop} {ls ls' : List Lexeme}

theorem follows_docHere (h : docAt ls = docAt ls') : Follows Eq ls ls' docHere docHere :=
  fun _ => .done 0 rfl h

/-- Loops do alike if each round does, and what is said of the lexemes before a round holds of those
that it goes on with. -/
theorem Follows.rounds {n : Nat} {body : (Unit → Reader Unit) → Unit → Reader Unit}
    {P : List Lexeme → List Lexeme → Prop} (hadvances : Advances n body)
    (hkeep : ∀ ls ls' m, P ls ls' → Rounds body ls (ls.drop m) → P (ls.drop m) (ls'.drop m))
    (hbody : ∀ self ls ls', P ls ls' →
      (∀ m, Rounds body ls (ls.drop m) → Follows Eq (ls.drop m) (ls'.drop m) (self ()) (self ())) →
      Follows Eq ls ls' (body self ()) (body self ()))
    (h : P ls ls') : Follows Eq ls ls' (Reader.recurse body ()) (Reader.recurse body ()) := by
  induction hlength : ls.length using Nat.strongRecOn generalizing ls ls' with
  | ind k ih =>
    intro htwins
    rw [hadvances.recurse_eq, hadvances.recurse_eq]
    refine hbody (Reader.recurse body) ls ls' h (fun m hround => ?_) htwins
    have hlt := hadvances.length_lt hround
    exact ih _ (hlength ▸ hlt) (hkeep ls ls' m h hround) rfl

/-- A round that reads an item and goes on does alike if the item and what follows do. -/
theorem Follows.item {body : (Unit → Reader Unit) → Unit → Reader Unit} {item : Reader α}
    {self : Unit → Reader Unit}
    (hbody : ∀ self, body self () ls = (item >>= fun _ => self ()) ls)
    (hbody' : ∀ self, body self () ls' = (item >>= fun _ => self ()) ls')
    (hitem : Follows (fun _ _ => True) ls ls' item item)
    (hself : ∀ m, Rounds body ls (ls.drop m) →
      Follows Eq (ls.drop m) (ls'.drop m) (self ()) (self ())) :
    Follows Eq ls ls' (body self ()) (body self ()) := by
  intro htwins
  rw [hbody, hbody']
  exact (hitem.behind fun _ _ _ m hrun _ => hself m (rounds_of_item hbody hrun)) htwins

/-- Readers that tell nothing and are gone back behind unless a lexeme of a kind follows. -/
theorem Follows.orBack {k : TokenKind} {p : Reader α} {p' : Reader α'} {f : α → Reader Unit}
    {f' : α' → Reader Unit} (hsilent : Silent p) (hsilent' : Silent p') (hp : Follows R ls ls' p p')
    (hf : ∀ told a a' n, p ls = (told, .ok (a, ls.drop n)) → R a a' →
      Lexeme.kindAt (ls.drop n) 0 = some k → Follows Eq (ls.drop n) (ls'.drop n) (f a) (f' a')) :
    Follows Eq ls ls' (p >>= fun a => atKind k >>= fun b => if b then f a else continueWith ls)
      (p' >>= fun a => atKind k >>= fun b => if b then f' a else continueWith ls') := by
  intro htwins
  show Alike Eq ls ls' (andThen p _ ls) (andThen p' _ ls')
  have hfirst := hp htwins
  have htold := hsilent ls
  have htold' := hsilent' ls'
  unfold andThen
  generalize hrun : p ls = run at hfirst htold
  generalize p' ls' = run' at hfirst htold'
  cases hfirst with
  | stopped e n hsame => exact .stopped e n hsame
  | done n hsame ha =>
    dsimp only at htold htold'
    subst htold htold'
    dsimp only
    rw [bind_quiet rfl, bind_quiet rfl, ← (htwins.drop n).kindAt]
    by_cases hk : Lexeme.kindAt (ls.drop n) 0 = some k
    · simp only [hk, decide_true, if_true]
      exact (hf _ _ _ n hrun ha hk (htwins.drop n)).behind hsame
    · simp only [hk, decide_false, Bool.false_eq_true, if_false]
      exact .done 0 hsame rfl

end Reader

namespace Grammar

open Reader Lexeme

variable {ls ls' : List Lexeme}

/-! ### Declarations that have been read -/

/-- What stands before two declarations differs in the lines and in the arguments of annotations at
most. -/
structure OpenedAlike (o o' : Opening) : Prop where
  decorations : DecoratedAlike o.decorations o'.decorations
  doc : o.doc = o'.doc

theorem follows_opening (h : docAt ls = docAt ls') :
    Follows OpenedAlike ls ls' opening opening := by
  refine .pass (n := 0) rfl rfl (.pass (n := 0) rfl rfl ?_)
  exact follows_decorations.last fun d d' hd => ⟨hd, h⟩

theorem follows_tellDoc (doc : Option String) (target : DocTarget) :
    Follows Eq ls ls' (tellDoc doc target) (tellDoc doc target) := by
  cases doc with
  | none => exact follows_pure rfl
  | some text => exact follows_tell rfl

theorem follows_tellField (doc : Option String) {f f' : Written.Field}
    (h : f.outline = f'.outline) : Follows Eq ls ls' (tellField doc f) (tellField doc f') := by
  have hname : f.name = f'.name := show f.outline.name = f'.outline.name by rw [h]
  have hbegin : (Event.beginField f).outline = (Event.beginField f').outline :=
    congrArg Event.beginField h
  unfold tellField
  rw [hname]
  refine (follows_tellDoc _ _).bindEq fun _ ls ls' => ?_
  exact (follows_tell hbegin).bindEq fun _ ls ls' => follows_tell rfl

theorem follows_tellMethod (doc : Option String) {m m' : Written.Method}
    (h : m.outline = m'.outline) : Follows Eq ls ls' (tellMethod doc m) (tellMethod doc m') := by
  have hname : m.name = m'.name := show m.outline.name = m'.outline.name by rw [h]
  have hconstructor : m.isConstructor = m'.isConstructor :=
    show m.outline.isConstructor = m'.outline.isConstructor by rw [h]
  have hbegin : (Event.beginMethod m).outline = (Event.beginMethod m').outline :=
    congrArg Event.beginMethod h
  unfold tellMethod
  rw [hname, hconstructor]
  refine (follows_tellDoc _ _).bindEq fun _ ls ls' => ?_
  exact (follows_tell hbegin).bindEq fun _ ls ls' => follows_tell rfl

theorem follows_tellComponents (line line' : Nat) {ps ps' : List Written.Parameter}
    (h : ps.map Written.Parameter.outline = ps'.map Written.Parameter.outline) :
    Follows Eq ls ls' (tellComponents line ps) (tellComponents line' ps') := by
  induction ps generalizing ps' ls ls' with
  | nil =>
    obtain rfl : ps' = [] := by simpa using h.symm
    exact follows_pure rfl
  | cons p ps ih =>
    obtain ⟨p', ps', rfl⟩ : ∃ p' more, ps' = p' :: more := by
      cases ps' with
      | nil => cases h
      | cons p' more => exact ⟨p', more, rfl⟩
    obtain ⟨hp, hps⟩ := List.cons.inj h
    have hname : p.name = p'.name := show p.outline.name = p'.outline.name by rw [hp]
    have htype : p.type = p'.type := show p.outline.type = p'.outline.type by rw [hp]
    have hnotes : outlines p.annotations = outlines p'.annotations :=
      show p.outline.annotations = p'.outline.annotations by rw [hp]
    unfold tellComponents
    rw [hname]
    cases p'.name with
    | none => exact ih hps
    | some name =>
      refine (follows_tellField none ?_).bindEq fun _ ls ls' => ih hps
      simp only [Written.Field.outline, componentField, htype, hnotes, blanked]

section Members

variable {o o' : Opening}

theorem follows_declarators (ho : OpenedAlike o o') (t : TypeExpr) (name : String) :
    Follows Eq ls ls' (declarators o t name) (declarators o' t name) := by
  refine .recurse (I := Eq) (fun self self' hself name name' ls ls' hname => ?_) rfl
  obtain rfl := hname
  refine follows_dims.bindEq fun extra ls ls' => ?_
  refine (follows_expressionAfter .equals).bind fun raw raw' ls ls' hraw => ?_
  rw [ho.doc]
  refine (follows_tellField _ ?_).bindEq fun _ ls ls' => ?_
  · simp only [Written.Field.outline, ho.decorations.modifiers, ho.decorations.annotations, hraw]
  refine (follows_accept _).bindEq fun b ls ls' => .ite (fun _ => ?_) fun _ => ?_
  · exact (follows_identifier _).bindEq fun next ls ls' => hself next next ls ls' rfl
  · exact (follows_expect _ _).last fun _ _ _ => rfl

theorem follows_methodRest (ho : OpenedAlike o o') (typeParams : List (TypeParameter TypeExpr))
    (returnType : Option TypeExpr) (name : String) :
    Follows Eq ls ls' (methodRest o typeParams returnType name)
      (methodRest o' typeParams returnType name) := by
  refine follows_parameters.bind fun ps ps' ls ls' hps => follows_dims.bindEq fun extra ls ls' => ?_
  refine (follows_typesAfter _).bindEq fun throwing ls ls' => ?_
  refine (follows_expressionAfter _).bind fun value value' ls ls' hvalue => ?_
  have hbody (ls ls' : List Lexeme) :
      Follows (fun raw raw' => blanked raw = blanked raw') ls ls' (do
        if ← atKind .leftBrace then pure (some (← enclosed .brace))
        else
          let _ ← expect .semicolon .methodEnd
          pure none) (do
        if ← atKind .leftBrace then pure (some (← enclosed .brace))
        else
          let _ ← expect .semicolon .methodEnd
          pure none) :=
    (follows_atKind _).bindEq fun _ _ _ => .ite
      (fun _ => (follows_enclosed .brace).last fun _ _ _ => rfl)
      fun _ => (follows_expect _ _).last fun _ _ _ => rfl
  refine (hbody ls ls').bind fun body body' ls ls' hraw => ?_
  rw [ho.doc]
  refine follows_tellMethod _ ?_
  simp only [Written.Method.outline, ho.decorations.modifiers, ho.decorations.annotations, hps,
    hvalue, hraw]

theorem follows_memberRest (ho : OpenedAlike o o') (owner : ClassKind) (className : String) :
    Follows Eq ls ls' (memberRest owner className o) (memberRest owner className o') := by
  refine follows_typeParameters.bindEq fun typeParams ls ls' => .look fun htwins => ?_
  rw [htwins.isWordAt, htwins.kindAt]
  refine .ite (fun _ => ?_) fun _ => .ite (fun _ => ?_) fun _ => ?_
  · exact (follows_skip 1).bindEq fun _ ls ls' => follows_methodRest ho _ _ _
  · refine (follows_skip 1).bindEq fun _ ls ls' => ?_
    exact (follows_enclosed .brace).last fun _ _ _ => rfl
  · refine follows_type.bindEq fun t ls ls' => (follows_identifier _).bindEq fun name ls ls' => ?_
    refine (follows_atKind _).bindEq fun b ls ls' => .ite (fun _ => ?_) fun _ => ?_
    · exact follows_methodRest ho _ _ _
    · exact follows_declarators ho _ _

/-- One constant of an enum. -/
theorem follows_constant (h : docAt ls = docAt ls') (enum : String) :
    Follows Eq ls ls' (constantThen enum (pure ())) (constantThen enum (pure ())) := by
  refine (follows_docHere h).bindEq fun doc ls ls' => ?_
  refine follows_lineHere.bind fun _ _ ls ls' _ => ?_
  refine follows_annotations.bind fun notes notes' ls ls' hnotes => ?_
  refine (follows_identifier _).bindEq fun name ls ls' => ?_
  refine (follows_enclosedAt _ _).bind fun raw raw' ls ls' hraw => ?_
  have hfield (line line' : Nat) (ls ls' : List Lexeme) :
      Follows Eq ls ls'
        (tellField doc
          { name, modifiers := constantModifiers, annotations := notes, type := .simple enum,
            initializer := raw, isEnumConstant := true, line } >>= fun _ => pure ())
        (tellField doc
          { name, modifiers := constantModifiers, annotations := notes', type := .simple enum,
            initializer := raw', isEnumConstant := true, line := line' } >>= fun _ => pure ()) := by
    refine (follows_tellField doc ?_).last fun _ _ _ => rfl
    simp only [Written.Field.outline, hnotes, hraw]
  refine (follows_atKind _).bindEq fun b ls ls' => .ite (fun _ => ?_) fun _ => hfield _ _ _ _
  exact (follows_enclosed .brace).bind fun _ _ ls ls' _ => hfield _ _ ls ls'

end Members

/-! ### Classes -/

theorem follows_extendedTypes (kind : ClassKind) :
    Follows Eq ls ls' (extendedTypes kind) (extendedTypes kind) := by
  cases kind with
  | plainClass =>
    exact (follows_accept _).bindEq fun _ _ _ => .ite
      (fun _ => follows_type.last fun _ _ ht => congrArg ([·]) ht) fun _ => follows_pure rfl
  | interfaceType => exact follows_typesAfter _
  | enumType | annotationType | recordType => exact follows_pure rfl

theorem follows_permittedTypes : Follows Eq ls ls' permittedTypes permittedTypes := by
  refine .look fun htwins => ?_
  rw [htwins.isWordAt]
  exact .ite (fun _ => (follows_skip 1).bindEq fun _ _ _ => follows_typeList)
    fun _ => follows_pure rfl

theorem follows_classOpening (kind : ClassKind) {o o' : Opening} (ho : OpenedAlike o o') :
    Follows Eq ls ls' (classOpening kind o) (classOpening kind o') := by
  refine (follows_skip _).bindEq fun _ ls ls' => (follows_identifier _).bindEq fun name ls ls' => ?_
  refine follows_typeParameters.bindEq fun typeParams ls ls' => ?_
  have hcomponents : Follows
      (fun ps ps' => ps.map Written.Parameter.outline = ps'.map Written.Parameter.outline) ls ls'
      (if kind = .recordType then parameters else pure [])
      (if kind = .recordType then parameters else pure []) :=
    .ite (fun _ => follows_parameters) fun _ => follows_pure rfl
  refine hcomponents.bind fun ps ps' ls ls' hps => ?_
  refine (follows_extendedTypes kind).bindEq fun extending ls ls' => ?_
  refine (follows_typesAfter _).bindEq fun implementing ls ls' => ?_
  refine follows_permittedTypes.bindEq fun permitting ls ls' => ?_
  rw [ho.doc]
  refine (follows_tellDoc _ _).bindEq fun _ ls ls' => ?_
  refine (follows_tell ?_).bindEq fun _ ls ls' => ?_
  · simp only [Event.outline, Written.Class.outline, ho.decorations.modifiers,
      ho.decorations.annotations]
  have hend (ls ls' : List Lexeme) : Follows Eq ls ls'
      (expect .leftBrace .classOpening >>= fun _ => pure name)
      (expect .leftBrace .classOpening >>= fun _ => pure name) :=
    (follows_expect _ _).last fun _ _ _ => rfl
  refine .ite (fun _ => ?_) fun _ => hend ls ls'
  refine (follows_tellComponents _ _ hps).bindEq fun _ ls ls' => ?_
  refine (follows_tellMethod _ ?_).bindEq fun _ ls ls' => hend ls ls'
  simp only [Written.Method.outline, canonicalConstructor, hps]

section Places

variable {unit unit' : List Lexeme}

/-- Two readings stand at the same lexeme of their units, which is at a place of the first. -/
structure Meets (unit unit' : List Lexeme) (place : Place) (ls ls' : List Lexeme) : Prop where
  comes : Comes unit place ls
  same : ∃ n, ls = unit.drop n ∧ ls' = unit'.drop n

/-- The documentation comments that count are the same in two units. -/
def DocsAgree (unit unit' : List Lexeme) : Prop :=
  ∀ n, Documented unit (unit.drop n) → docAt (unit.drop n) = docAt (unit'.drop n)

variable {place next : Place}

theorem Meets.behind (h : Meets unit unit' place ls ls') {m : Nat}
    (hcomes : Comes unit next (ls.drop m)) : Meets unit unit' next (ls.drop m) (ls'.drop m) := by
  obtain ⟨n, hls, hls'⟩ := h.same
  refine ⟨hcomes, n + m, ?_, ?_⟩
  · rw [hls, List.drop_drop]
  · rw [hls', List.drop_drop]

theorem Meets.doc (h : Meets unit unit' place ls ls') (hdocs : DocsAgree unit unit')
    (hbegins : place.Begins ls) : docAt ls = docAt ls' := by
  obtain ⟨n, rfl, rfl⟩ := h.same
  exact hdocs n (.declaration h.comes hbegins)

theorem begins_twins (place : Place) (h : Twins ls ls') : place.Begins ls ↔ place.Begins ls' := by
  cases place with
  | outermost =>
    have hnil : ls ≠ [] ↔ ls' ≠ [] := by
      rw [← List.length_pos_iff, ← List.length_pos_iff, h.length_eq]
    simp only [Place.Begins, hnil, h.kindAt, h.startsModule]
  | head kind => exact Iff.rfl
  | constants enum => simp only [Place.Begins, h.kindAt]
  | members owner className => simp only [Place.Begins, h.kindAt]

theorem constantsBody_begins {enum : String} (h : (Place.constants enum).Begins ls)
    (self : Unit → Reader Unit) : constantsBody enum self () ls =
      (constantThen enum (pure ()) >>= fun _ => constantEnd self) ls := by
  rw [constantsBody_eq, bind_quiet rfl, ← constantThen_eq]
  refine congrFun (?_ : _ = constantThen enum (constantEnd self)) ls
  split
  · simp_all [Place.Begins]
  · simp_all [Place.Begins]
  · simp_all [Place.Begins]
  · rfl

theorem follows_constants (hdocs : DocsAgree unit unit') {enum : String}
    (h : Meets unit unit' (.constants enum) ls ls') :
    Follows Eq ls ls' (constants enum) (constants enum) := by
  refine Follows.rounds (Loop.constants enum).advances
    (fun ls ls' m hmeets hround => hmeets.behind (.constant hmeets.comes hround))
    (fun self ls ls' hmeets hself htwins => ?_) h
  by_cases hbegins : (Place.constants enum).Begins ls
  · rw [constantsBody_begins hbegins, constantsBody_begins ((begins_twins _ htwins).mp hbegins)]
    refine (Follows.behind (follows_constant (hmeets.doc hdocs hbegins) enum)
      fun told _ _ n hrun _ => ?_) htwins
    refine (follows_accept .comma).behind fun told' b b' m hcomma hb => ?_
    obtain rfl := hb
    refine .ite (fun hb => ?_) fun _ => .look fun htwins => ?_
    · rw [List.drop_drop] at hcomma
      rw [List.drop_drop, List.drop_drop]
      refine hself (n + m) ⟨told ++ told', fun self => ?_⟩
      rw [constantsBody_begins hbegins, bind_run hrun, constantEnd, bind_run hcomma, if_pos hb,
        List.append_assoc]
    · rw [htwins.kindAt]
      split
      · exact follows_skip 1
      · exact follows_pure rfl
      · exact follows_fail _
  · have hend : kindAt ls 0 = none ∨ kindAt ls 0 = some .semicolon ∨
        kindAt ls 0 = some .rightBrace := by
      simpa [Place.Begins, or_iff_not_imp_left] using hbegins
    rw [constantsBody_eq]
    refine Follows.look (fun htwins => ?_) htwins
    rw [← htwins.kindAt]
    rcases hend with hk | hk | hk
    · rw [hk]
      exact follows_pure rfl
    · rw [hk]
      exact follows_skip 1
    · rw [hk]
      exact follows_pure rfl

section Rounds

variable (readClass : ReadClass) (owner : ClassKind) (className : String)
  (self : Unit → Reader Unit)

theorem membersBody_begins (h : (Place.members owner className).Begins ls) :
    membersBody readClass owner className self () ls =
      (member readClass owner className >>= fun _ => self ()) ls := by
  obtain ⟨hkind, hstatic⟩ := h
  rw [membersBody_eq, bind_quiet rfl]
  refine congrFun (?_ : _ = member readClass owner className >>= fun _ => self ()) ls
  split
  · simp_all
  · simp_all
  · simp_all
  · simp_all
  · rename_i k _ _ _ hk
    refine if_neg fun hc => hstatic ?_
    simp only [Bool.and_eq_true, decide_eq_true_eq] at hc
    exact ⟨hk.trans (congrArg some hc.1), hc.2⟩

theorem membersBody_semicolon (h : kindAt ls 0 = some .semicolon) :
    membersBody readClass owner className self () ls = (skip 1 >>= fun _ => self ()) ls := by
  rw [membersBody_eq, bind_quiet rfl, h]

theorem membersBody_block (h : kindAt ls 0 = some .leftBrace) :
    membersBody readClass owner className self () ls =
      (enclosed .brace >>= fun _ => self ()) ls := by
  rw [membersBody_eq, bind_quiet rfl, h]

theorem membersBody_static (h : kindAt ls 0 = some (.modifier .isStatic))
    (hbrace : kindAt ls 1 = some .leftBrace) :
    membersBody readClass owner className self () ls =
      ((skip 1 >>= fun _ => enclosed .brace) >>= fun _ => self ()) ls := by
  rw [membersBody_eq, bind_quiet rfl, h, bind_assoc]
  simp only [hbrace, decide_true, Bool.and_self, if_true]

end Rounds

theorem follows_member (hdocs : DocsAgree unit unit') {owner : ClassKind} {className : String}
    (h : Meets unit unit' (.members owner className) ls ls')
    (hbegins : (Place.members owner className).Begins ls)
    (hclasses : ∀ kind o o' m, Meets unit unit' (.head kind) (ls.drop m) (ls'.drop m) →
      OpenedAlike o o' → Follows Eq (ls.drop m) (ls'.drop m) (classDeclaration (kind, o))
        (classDeclaration (kind, o'))) :
    Follows Eq ls ls' (member classDeclaration owner className)
      (member classDeclaration owner className) := by
  rw [member_eq]
  refine (follows_opening (h.doc hdocs hbegins)).behind fun told o o' n hopening ho =>
    .look fun htwins => ?_
  rw [← htwins.declarationKind?]
  cases hkind : declarationKind? (ls.drop n) with
  | none => exact follows_memberRest ho owner className
  | some kind =>
    exact hclasses kind o o' n (h.behind (.type h.comes trivial hbegins hopening hkind)) ho

theorem follows_members (hdocs : DocsAgree unit unit') {owner : ClassKind} {className : String}
    {k : Nat} (hclasses : ∀ kind o o' ls ls', ls.length ≤ k → Meets unit unit' (.head kind) ls ls' →
      OpenedAlike o o' → Follows Eq ls ls' (classDeclaration (kind, o))
        (classDeclaration (kind, o')))
    (h : Meets unit unit' (.members owner className) ls ls') (hk : ls.length ≤ k) :
    Follows Eq ls ls' (Reader.recurse (membersBody classDeclaration owner className) ())
      (Reader.recurse (membersBody classDeclaration owner className) ()) := by
  refine Follows.rounds (P := fun ls ls' => Meets unit unit' (.members owner className) ls ls' ∧
      ls.length ≤ k) (Loop.members owner className).advances (fun ls ls' m hP hround => ?_)
    (fun self ls ls' hP hself htwins => ?_) ⟨h, hk⟩
  · refine ⟨hP.1.behind (.member hP.1.comes hround), ?_⟩
    have := hP.2
    rw [List.length_drop]
    omega
  obtain ⟨hmeets, hle⟩ := hP
  have hzero := htwins.kindAt 0
  have hone := htwins.kindAt 1
  by_cases hbegins : (Place.members owner className).Begins ls
  · refine Follows.item (fun self => membersBody_begins _ _ _ self hbegins)
      (fun self => membersBody_begins _ _ _ self ((begins_twins _ htwins).mp hbegins))
      ((follows_member hdocs hmeets hbegins fun kind o o' m hhead ho => ?_).mono
        fun _ _ _ => trivial) hself htwins
    refine hclasses kind o o' _ _ ?_ hhead ho
    rw [List.length_drop]
    omega
  · have hother : kindAt ls 0 = none ∨ kindAt ls 0 = some .rightBrace ∨
        kindAt ls 0 = some .semicolon ∨ kindAt ls 0 = some .leftBrace ∨
        (kindAt ls 0 = some (.modifier .isStatic) ∧ kindAt ls 1 = some .leftBrace) := by
      simp only [Place.Begins, List.mem_cons, List.not_mem_nil, or_false] at hbegins
      tauto
    rcases hother with hk | hk | hk | hk | ⟨hk, hbrace⟩
    · rw [membersBody_eq]
      refine Follows.look (fun _ => ?_) htwins
      rw [← hzero, hk]
      exact follows_fail _
    · rw [membersBody_eq]
      refine Follows.look (fun _ => ?_) htwins
      rw [← hzero, hk]
      exact follows_skip 1
    · exact Follows.item (fun self => membersBody_semicolon _ _ _ self hk)
        (fun self => membersBody_semicolon _ _ _ self (hzero ▸ hk))
        ((follows_skip 1).mono fun _ _ _ => trivial) hself htwins
    · exact Follows.item (fun self => membersBody_block _ _ _ self hk)
        (fun self => membersBody_block _ _ _ self (hzero ▸ hk)) (follows_enclosed .brace) hself
        htwins
    · exact Follows.item (fun self => membersBody_static _ _ _ self hk hbrace)
        (fun self => membersBody_static _ _ _ self (hzero ▸ hk) (hone ▸ hbrace))
        ((follows_skip 1).bindEq fun _ _ _ => follows_enclosed .brace) hself htwins

/-- A class is read alike where two readings meet before it. -/
theorem follows_classDeclaration (hdocs : DocsAgree unit unit') {kind : ClassKind} {o o' : Opening}
    (h : Meets unit unit' (.head kind) ls ls') (ho : OpenedAlike o o') :
    Follows Eq ls ls' (classDeclaration (kind, o)) (classDeclaration (kind, o')) := by
  induction hlength : ls.length using Nat.strongRecOn generalizing kind o o' ls ls' with
  | ind k ih =>
    intro htwins
    have hadvances := Descent.classDeclaration.advances
    unfold classDeclaration
    rw [hadvances.recurse_eq, hadvances.recurse_eq, classBodyOf_eq, classBodyOf_eq]
    refine Follows.behind (follows_classOpening kind ho)
      (fun told name name' n hopening hname => ?_) htwins
    obtain rfl := hname
    have hshort := ((proceeds_classOpening kind o).taken _ _ _ hopening).2
    have hconstants : Follows Eq (ls.drop n) (ls'.drop n) (constantsOf kind name)
        (constantsOf kind name) := by
      refine .ite (fun hkind => follows_constants hdocs ?_) fun _ => follows_pure rfl
      subst hkind
      exact h.behind (.constants h.comes hopening)
    refine hconstants.behind fun told' _ _ m hrun _ => ?_
    rw [List.drop_drop] at hrun
    rw [List.drop_drop, List.drop_drop]
    have hle : (ls.drop (n + m)).length ≤ (ls.drop n).length := by
      simp only [List.length_drop]
      omega
    have hmembers := follows_members hdocs (k := (ls.drop n).length)
      (fun kind o o' ls ls' hls hhead ho => ih _ (by omega) hhead ho rfl)
      (h.behind (.members h.comes hopening hrun)) hle
    exact hmembers.bindEq fun _ _ _ => follows_tell rfl

/-! ### Source units -/

theorem follows_typeDeclaration (hdocs : DocsAgree unit unit')
    (h : Meets unit unit' .outermost ls ls') (hbegins : Place.outermost.Begins ls) :
    Follows Eq ls ls' typeDeclaration typeDeclaration := by
  refine (follows_opening (h.doc hdocs hbegins)).behind fun told o o' n hopening ho =>
    .look fun htwins => ?_
  rw [← htwins.declarationKind?]
  cases hkind : declarationKind? (ls.drop n) with
  | none => exact follows_fail _
  | some kind =>
    exact follows_classDeclaration hdocs
      (h.behind (.type h.comes trivial hbegins hopening hkind)) ho

theorem dropWhile_twins {p : TokenKind → Bool} (h : Twins ls ls') :
    ∃ n, ls.dropWhile (p ·.kind) = ls.drop n ∧ ls'.dropWhile (p ·.kind) = ls'.drop n := by
  induction h with
  | nil => exact ⟨0, rfl, rfl⟩
  | @cons l l' ls ls' hl _ ih =>
    cases hp : p l.kind with
    | false =>
      refine ⟨0, List.dropWhile_cons_of_neg (by simp [hp]), List.dropWhile_cons_of_neg ?_⟩
      simp [← hl.kind, hp]
    | true =>
      obtain ⟨n, hdrop, hdrop'⟩ := ih
      refine ⟨n + 1, ?_, ?_⟩
      · rw [List.dropWhile_cons_of_pos (by simp [hp]), hdrop, List.drop_succ_cons]
      · rw [List.dropWhile_cons_of_pos (by simp [← hl.kind, hp]), hdrop', List.drop_succ_cons]

theorem follows_moduleDeclaration :
    Follows Eq ls ls' moduleDeclaration moduleDeclaration := by
  refine .look fun htwins => ?_
  obtain ⟨n, hdrop, hdrop'⟩ := dropWhile_twins (p := (· ≠ .leftBrace)) htwins
  rw [hdrop, hdrop']
  refine .pass rfl rfl ?_
  refine (follows_atKind _).bindEq fun b ls ls' => .ite (fun _ => ?_) fun _ => follows_fail _
  exact (follows_enclosed .brace).last fun _ _ _ => rfl

theorem follows_importedName (name : String) :
    Follows Eq ls ls' (Reader.recurse importedNameBody name)
      (Reader.recurse importedNameBody name) := by
  refine .recurse (I := Eq) (fun self self' hself name name' ls ls' hname => ?_) rfl
  obtain rfl := hname
  refine (follows_accept _).bindEq fun b ls ls' => .ite (fun _ => .look fun htwins => ?_)
    fun _ => follows_pure rfl
  rw [htwins.kindAt, htwins.headText]
  refine .ite (fun _ => (follows_skip 1).last fun _ _ _ => rfl) fun _ => ?_
  exact (follows_identifier _).bindEq fun part ls ls' => hself _ _ ls ls' rfl

theorem follows_importDeclaration : Follows Eq ls ls' importDeclaration importDeclaration := by
  refine follows_lineHere.bind fun _ _ ls ls' _ => (follows_skip 1).bindEq fun _ ls ls' => ?_
  refine (follows_accept _).bindEq fun isStatic ls ls' => ?_
  refine (follows_identifier _).bindEq fun first ls ls' => ?_
  refine (follows_importedName first).bindEq fun named ls ls' => ?_
  exact (follows_expect _ _).bindEq fun _ ls ls' => follows_tell rfl

theorem follows_packageDeclaration (hdocs : DocsAgree unit unit') :
    Follows Eq unit unit' packageDeclaration packageDeclaration := by
  refine .look fun _ => ?_
  have hfirst : docAt unit = docAt unit' := hdocs 0 .first
  refine .pass (n := 0) rfl rfl (.pass (n := 0) rfl rfl ?_)
  refine Follows.orBack silent_annotations silent_annotations follows_annotations
    fun told notes notes' n hnotes hsame hword => ?_
  have hnearer := hdocs n (.package hnotes hword)
  refine (follows_docHere hnearer).bindEq fun nearer ls ls' => ?_
  rw [show unit.head?.bind Lexeme.doc = unit'.head?.bind Lexeme.doc from hfirst]
  refine (follows_tellDoc _ _).bindEq fun _ ls ls' => (follows_skip 1).bindEq fun _ ls ls' => ?_
  refine follows_qualifiedName.bindEq fun name ls ls' => ?_
  refine (follows_expect _ _).bindEq fun _ ls ls' => follows_tell ?_
  simp only [Event.outline, Written.Package.outline, hsame]

/-- What is read of a unit before the loop over its declarations goes round. -/
def outermostItem (ls : List Lexeme) : Reader Unit :=
  if kindAt ls 0 = some .semicolon then skip 1
  else if startsModule ls then moduleDeclaration
  else typeDeclaration

theorem declarationsBody_item (hls : ls ≠ []) (self : Unit → Reader Unit) :
    declarationsBody self () ls = (outermostItem ls >>= fun _ => self ()) ls := by
  have hempty : ls.isEmpty = false := by simpa using hls
  show (lookAhead >>= _) ls = _
  rw [bind_quiet rfl, hempty, if_neg Bool.false_ne_true, outermostItem]
  split
  · rfl
  · split <;> rfl

theorem follows_outermostItem (hdocs : DocsAgree unit unit')
    (h : Meets unit unit' .outermost ls ls') (hls : ls ≠ []) :
    Follows Eq ls ls' (outermostItem ls) (outermostItem ls) := by
  refine .ite (fun _ => follows_skip 1) fun hsemicolon =>
    .ite (fun _ => follows_moduleDeclaration) fun hmodule => ?_
  exact follows_typeDeclaration hdocs h ⟨hls, hsemicolon, Bool.eq_false_iff.mpr hmodule⟩

theorem follows_declarations (hdocs : DocsAgree unit unit')
    (h : Meets unit unit' .outermost ls ls') :
    Follows Eq ls ls' (Reader.recurse declarationsBody ())
      (Reader.recurse declarationsBody ()) := by
  refine Follows.rounds Loop.declarations.advances
    (fun ls ls' m hmeets hround => hmeets.behind (.declaration hmeets.comes hround))
    (fun self ls ls' hmeets hself htwins => ?_) h
  have hlength := htwins.length_eq
  cases ls with
  | nil =>
    obtain rfl := List.length_eq_zero_iff.mp hlength.symm
    exact .done 0 rfl rfl
  | cons l ls =>
    have hls' : ls' ≠ [] := List.ne_nil_of_length_eq_add_one hlength.symm
    have hitem : outermostItem ls' = outermostItem (l :: ls) := by
      rw [outermostItem, outermostItem, htwins.kindAt, htwins.startsModule]
    exact Follows.item (declarationsBody_item (List.cons_ne_nil l ls))
      (hitem ▸ declarationsBody_item hls')
      ((follows_outermostItem hdocs hmeets (List.cons_ne_nil l ls)).mono fun _ _ _ => trivial) hself
      htwins

theorem follows_compilationUnit (hdocs : DocsAgree unit unit') :
    Follows Eq unit unit' compilationUnit compilationUnit := by
  refine .say rfl ((follows_packageDeclaration hdocs).behind fun told _ _ n hpackage _ => ?_)
  refine (follows_many (fun htwins => by rw [htwins.kindAt])
    fun _ _ => follows_importDeclaration).behind fun told' imports _ m himports _ => ?_
  rw [List.drop_drop] at himports
  rw [List.drop_drop, List.drop_drop]
  have hmeets : Meets unit unit' .outermost (unit.drop (n + m)) (unit'.drop (n + m)) :=
    ⟨.outermost hpackage himports, n + m, rfl, rfl⟩
  exact (follows_declarations hdocs hmeets).bindEq fun _ _ _ => follows_tell rfl

/-- A comment before a semicolon counts nowhere but at the beginning of a unit. -/
theorem docsAgree_of_semicolons (hfirst : kindAt unit 0 ≠ some .semicolon)
    (h : ∀ n, kindAt unit n = some .semicolon ∨ docAt (unit.drop n) = docAt (unit'.drop n)) :
    DocsAgree unit unit' := by
  intro n hcounts
  refine (h n).resolve_left fun hsemicolon => ?_
  have hkind : kindAt (unit.drop n) 0 = some .semicolon := by
    rw [← hsemicolon]
    simp [kindAt]
  generalize unit.drop n = ls at hcounts hkind
  cases hcounts with
  | first => exact hfirst hkind
  | package _ hword => simp [hkind] at hword
  | @declaration place _ _ hbegins => cases place <;> simp [Place.Begins, hkind] at hbegins

end Places

end Grammar

/-- What is told of a token, whatever stands before it. -/
def Lexeme.word (l : Lexeme) : TokenKind × String := (l.kind, l.text)

theorem twins_of_words {ls ls' : List Lexeme} (h : ls.map Lexeme.word = ls'.map Lexeme.word) :
    Twins ls ls' := by
  have hpairs : List.Forall₂ (fun l l' => Lexeme.word l = Lexeme.word l') ls ls' := by
    rw [← List.forall₂_eq_eq_eq, List.forall₂_map_left_iff, List.forall₂_map_right_iff] at h
    exact h
  exact hpairs.imp fun l l' hl => ⟨congrArg Prod.fst hl, congrArg Prod.snd hl⟩

/-- Parsing sees the significant tokens, and the documentation comments where they count. Two texts
without a malformed token that are the same in these tell the same, up to lines and raw text; and
both follow the grammar, or stop at the same token for the same reason. -/
theorem parse_indifferent {text text' : String} (hlexed : (lex text).error = none)
    (hlexed' : (lex text').error = none)
    (htokens : (lexemes text).map Lexeme.word = (lexemes text').map Lexeme.word)
    (hdocs : Grammar.DocsAgree (lexemes text) (lexemes text')) :
    ToldAlike (parse text).events (parse text').events ∧
      (((parse text).error = none ∧ (parse text').error = none) ∨
        ∃ (expected : Expectation) (n : Nat),
          (parse text).error = some (.grammatical
            (.ofMismatch text ⟨expected, (lexemes text)[n]?⟩)) ∧
          (parse text').error = some (.grammatical
            (.ofMismatch text' ⟨expected, (lexemes text')[n]?⟩))) := by
  have hrun := Grammar.follows_compilationUnit hdocs (twins_of_words htokens)
  unfold lexemes at hrun ⊢
  simp only [parse, hlexed, hlexed']
  generalize Grammar.compilationUnit (Lexeme.ofTokens (lex text).tokens) = run at hrun
  generalize Grammar.compilationUnit (Lexeme.ofTokens (lex text').tokens) = run' at hrun
  cases hrun with
  | done n htold _ => exact ⟨htold, .inl ⟨rfl, rfl⟩⟩
  | stopped expected n htold => exact ⟨htold, .inr ⟨expected, n, rfl, rfl⟩⟩

/-- A class without comments in its members. -/
def plainSample : String := "/** A */ class C { void f() { g(); } int y = 1; }"

/-- The same class with comments in the body of its method and in the initializer of its field. -/
def commentedSample : String :=
  "/** A */\n\nclass C { void f() { g() /** B */; } int y = 1 /** D */; }"

theorem parse_indifferent_samples :
    (lex plainSample).error = none ∧ (lex commentedSample).error = none ∧
      (lexemes plainSample).map Lexeme.word = (lexemes commentedSample).map Lexeme.word ∧
      Grammar.DocsAgree (lexemes plainSample) (lexemes commentedSample) ∧
      (lexemes plainSample).map Lexeme.doc ≠ (lexemes commentedSample).map Lexeme.doc ∧
      ToldAlike (parse plainSample).events (parse commentedSample).events := by
  have h : (lex plainSample).error = none ∧ (lex commentedSample).error = none ∧
      (lexemes plainSample).map Lexeme.word = (lexemes commentedSample).map Lexeme.word ∧
      (lexemes plainSample).map Lexeme.doc ≠ (lexemes commentedSample).map Lexeme.doc ∧
      Lexeme.kindAt (lexemes plainSample) 0 ≠ some .semicolon ∧
      (lexemes plainSample).length = 19 ∧
      ∀ n < 19, Lexeme.kindAt (lexemes plainSample) n = some .semicolon ∨
        docAt ((lexemes plainSample).drop n) = docAt ((lexemes commentedSample).drop n) := by
    decide +kernel
  obtain ⟨hlexed, hlexed', htokens, hdiffer, hfirst, hlength, hshort⟩ := h
  have hdocs : Grammar.DocsAgree (lexemes plainSample) (lexemes commentedSample) := by
    refine Grammar.docsAgree_of_semicolons hfirst fun n => ?_
    by_cases hn : n < 19
    · exact hshort n hn
    · have hlength' := (twins_of_words htokens).length_eq
      rw [List.drop_eq_nil_of_le (by omega), List.drop_eq_nil_of_le (by omega)]
      exact .inr rfl
  exact ⟨hlexed, hlexed', htokens, hdocs, hdiffer,
    (parse_indifferent hlexed hlexed' htokens hdocs).1⟩

end JavaModel
