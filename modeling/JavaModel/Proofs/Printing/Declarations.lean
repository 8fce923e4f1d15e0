import JavaModel.Proofs.Printing.Members

/-! Type declarations printed as words with all that is declared in them, and read back. -/

namespace JavaModel.Printing

open Grammar Reader

/-! ### Trees -/

/-- A member of a type declaration. -/
inductive Item (δ : Type) where
  | field (f : Written.Field)
  | method (m : Written.Method)
  | type (d : δ)

/-- A type declaration: its head, the components of a record, the constants of an enum, and its
members. -/
structure Declaration where
  head : Written.Class
  components : List Written.Parameter
  constants : List Written.Field
  members : List (Item Declaration)

/-- The words that say the kind of a type declaration. -/
def kindWords : ClassKind → List Word
  | .plainClass => [.sign .classWord]
  | .interfaceType => [.sign .interfaceWord]
  | .enumType => [.sign .enumWord]
  | .annotationType => [.sign .atSign, .sign .interfaceWord]
  | .recordType => [.of "record"]

/-- The words of the components of a record. -/
def componentsWords (kind : ClassKind) (ps : List Written.Parameter) : List Word :=
  if kind = .recordType then parametersWords ps else []

/-- The words of the types that a type declaration permits. -/
def permittedWords : List TypeExpr → List Word
  | [] => []
  | t :: ts => .of "permits" :: listed .comma ((t :: ts).map typeWords)

/-- The words of a type declaration between its name and its body. -/
def headWords (c : Written.Class) (components : List Written.Parameter) : List Word :=
  angled (c.typeParameters.map typeParameterWords) ++ (componentsWords c.kind components ++
    (typesBehind .extendsWord c.extending ++ (typesBehind .implementsWord c.implementing ++
      permittedWords c.permitting)))

/-- The words of a type declaration from its modifiers on, around the words of its members. -/
def wordsAround (c : Written.Class) (components : List Written.Parameter)
    (constants : List Written.Field) (members : List Word) : List Word :=
  kindWords c.kind ++ (.of c.name :: (headWords c components ++ (.sign .leftBrace ::
    ((if c.kind = .enumType then constantsWords constants else []) ++
      (members ++ [.sign .rightBrace])))))

mutual

/-- The words of a type declaration. -/
def declarationWords : Declaration → List Word
  | ⟨c, components, constants, members⟩ =>
    onLine c.line (decorations c.modifiers c.annotations ++
      wordsAround c components constants (membersWords members))

/-- The words of members. -/
def membersWords : List (Item Declaration) → List Word
  | [] => []
  | i :: is => itemWords i ++ membersWords is

/-- The words of a member. -/
def itemWords : Item Declaration → List Word
  | .field f => fieldWords f
  | .method m => methodWords m
  | .type d => declarationWords d

end

/-- The events of the components of a record, which stand for private fields and a constructor. -/
def componentEvents (c : Written.Class) (components : List Written.Parameter) : List Event :=
  if c.kind = .recordType then
    components.flatMap (fun p => fieldEvents (componentField c.line p (p.name.getD ""))) ++
      methodEvents (canonicalConstructor c.line c.name components)
  else []

mutual

/-- The events of a type declaration. -/
def declarationEvents : Declaration → List Event
  | ⟨c, components, constants, members⟩ =>
    .beginClass c :: (componentEvents c components ++
      (constants.flatMap fieldEvents ++ (membersEvents members ++ [.endClass])))

/-- The events of members. -/
def membersEvents : List (Item Declaration) → List Event
  | [] => []
  | i :: is => itemEvents i ++ membersEvents is

/-- The events of a member. -/
def itemEvents : Item Declaration → List Event
  | .field f => fieldEvents f
  | .method m => methodEvents m
  | .type d => declarationEvents d

end

/-- The head of a type declaration. Only classes and interfaces are sealed, a class extends one type
at most, and of the other kinds only an interface extends any. -/
structure IsHead (c : Written.Class) : Prop where
  name : IsName c.name
  modifiers : c.kind = .plainClass ∨ c.kind = .interfaceType ∨
    (.isSealed ∉ c.modifiers ∧ .isNonSealed ∉ c.modifiers)
  annotations : ∀ a ∈ c.annotations, IsMarker a
  typeParameters : ∀ p ∈ c.typeParameters, IsTypeParameter p
  extending : ∀ t ∈ c.extending, IsType t
  superclass : c.kind = .plainClass → c.extending.length ≤ 1
  superless : c.kind ≠ .plainClass → c.kind ≠ .interfaceType → c.extending = []
  implementing : ∀ t ∈ c.implementing, IsType t
  permitting : ∀ t ∈ c.permitting, IsType t

/-- A type declaration that can be printed: only a record has components, only an enum constants. -/
inductive IsDeclaration : Declaration → Prop where
  | mk {c : Written.Class} {components : List Written.Parameter} {constants : List Written.Field}
      {members : List (Item Declaration)} (head : IsHead c)
      (components_parameters : ∀ p ∈ components, IsParameter p)
      (components_nil : c.kind ≠ .recordType → components = [])
      (constants_constants : ∀ f ∈ constants, IsConstant c.name f)
      (constants_nil : c.kind ≠ .enumType → constants = [])
      (fields : ∀ f, .field f ∈ members → IsField f)
      (methods : ∀ m, .method m ∈ members → IsMethod c.name m)
      (types : ∀ d, .type d ∈ members → IsDeclaration d) :
      IsDeclaration ⟨c, components, constants, members⟩

theorem membersWords_eq (items : List (Item Declaration)) :
    membersWords items = items.flatMap itemWords := by
  induction items with
  | nil => rfl
  | cons i is ih => rw [membersWords, ih, List.flatMap_cons]

theorem membersEvents_eq (items : List (Item Declaration)) :
    membersEvents items = items.flatMap itemEvents := by
  induction items with
  | nil => rfl
  | cons i is ih => rw [membersEvents, ih, List.flatMap_cons]

/-! ### Heads -/

theorem isToken_record : IsToken .identifier "record" := by decide +kernel

theorem isToken_permits : IsToken .identifier "permits" := by decide +kernel

/-- The kinds that words between a name and a body may begin with, in the order in which they are
looked for, and that of the body. -/
def headKinds : List TokenKind :=
  [.less, .leftParen, .extendsWord, .implementsWord, .identifier, .leftBrace]

theorem reads_extendedTypes {kind : ClassKind} {ts : List TypeExpr} (h : ∀ t ∈ ts, IsType t)
    (hclass : kind = .plainClass → ts.length ≤ 1)
    (hother : kind ≠ .plainClass → kind ≠ .interfaceType → ts = []) :
    Reads (extendedTypes kind) (spell (typesBehind .extendsWord ts))
      (fun more => EndsTypes .comma more ∧ kindOf more 0 ≠ some .extendsWord) [] ts := by
  cases kind with
  | plainClass =>
    match ts, hclass rfl with
    | [], _ => exact .look (.accept_false .extendsWord) (fun _ hmore => hmore.2) (.pure _)
    | [t], _ =>
      simp (disch := decide) only [typesBehind, List.map_cons, List.map_nil, listed,
        List.intercalate_singleton, spell_cons, pieces_sign]
      refine .step (.accept_true rfl) (.last ?_ (.pure _))
      exact (reads_type (h t List.mem_cons_self)).mono fun _ hmore => hmore.1.toEndsType
  | interfaceType => exact reads_typesAfter rfl h
  | _ =>
    rw [hother (by decide) (by decide)]
    exact .pure _

theorem reads_permittedTypes {ts : List TypeExpr} (h : ∀ t ∈ ts, IsType t) :
    Reads permittedTypes (spell (permittedWords ts)) (fun more => kindOf more 0 = some .leftBrace)
      [] ts := by
  match ts with
  | [] =>
    refine .lookAhead (q := pure []) (fun more ls hmore hls => ?_) (.pure _)
    have hword := isWordOf_eq_false more (by simp [hmore]) "permits"
    exact if_neg (by simp [Spelled.isWordAt hls, permittedWords, hword])
  | t :: ts =>
    rw [permittedWords, spell_cons, Word.of, isToken_permits.pieces []]
    refine .lookAhead (q := skip 1 >>= fun _ => typeList) (fun more ls hmore hls => ?_) ?_
    · exact if_pos (by simp [hls.isWordAt])
    · refine .step (.skip [_]) ?_
      refine (reads_typeList (List.cons_ne_nil t ts) h).mono fun more hmore => ?_
      exact ⟨⟨by simp [hmore], by simp [hmore], by simp [hmore]⟩, by simp [hmore]⟩

theorem kindOf_permitted {ts : List TypeExpr} {more : List Piece}
    (hmore : kindOf more 0 = some .leftBrace) {k : TokenKind} (hk : k ∉ headKinds.drop 4) :
    kindOf (spell (permittedWords ts) ++ more) 0 ≠ some k := by
  cases ts with
  | nil =>
    rw [permittedWords, spell_nil, List.nil_append, hmore]
    rintro ⟨rfl⟩
    exact hk (by decide)
  | cons t ts =>
    rw [permittedWords, spell_cons, Word.of, isToken_permits.pieces []]
    rintro ⟨rfl⟩
    exact hk (by decide)

theorem kindOf_implementing {c : Written.Class} {more : List Piece}
    (hmore : kindOf more 0 = some .leftBrace) {k : TokenKind} (hk : k ∉ headKinds.drop 3) :
    kindOf (spell (typesBehind .implementsWord c.implementing ++ permittedWords c.permitting) ++
      more) 0 ≠ some k := by
  rw [spell_append, List.append_assoc]
  rcases kindOf_typesBehind .implementsWord rfl c.implementing
    (spell (permittedWords c.permitting) ++ more) with h | h
  · rw [h]
    rintro ⟨rfl⟩
    exact hk (by decide)
  · rw [h]
    exact kindOf_permitted hmore fun hmem => hk (List.mem_of_mem_drop (i := 1) hmem)

theorem kindOf_extending {c : Written.Class} {more : List Piece}
    (hmore : kindOf more 0 = some .leftBrace) {k : TokenKind} (hk : k ∉ headKinds.drop 2) :
    kindOf (spell (typesBehind .extendsWord c.extending ++
      (typesBehind .implementsWord c.implementing ++ permittedWords c.permitting)) ++ more) 0 ≠
        some k := by
  rw [spell_append, List.append_assoc]
  rcases kindOf_typesBehind .extendsWord rfl c.extending
    (spell (typesBehind .implementsWord c.implementing ++ permittedWords c.permitting) ++ more)
    with h | h
  · rw [h]
    rintro ⟨rfl⟩
    exact hk (by decide)
  · rw [h]
    exact kindOf_implementing hmore fun hmem => hk (List.mem_of_mem_drop (i := 1) hmem)

theorem kindOf_components (c : Written.Class) (components : List Written.Parameter)
    {more : List Piece} (hmore : kindOf more 0 = some .leftBrace) {k : TokenKind}
    (hk : k ∉ headKinds.drop 1) :
    kindOf (spell (componentsWords c.kind components ++ (typesBehind .extendsWord c.extending ++
      (typesBehind .implementsWord c.implementing ++ permittedWords c.permitting))) ++ more) 0 ≠
        some k := by
  unfold componentsWords
  split
  · simp (disch := decide) only [parametersWords, spell_append, spell_cons, pieces_sign]
    rintro ⟨rfl⟩
    exact hk (by decide)
  · exact kindOf_extending hmore fun hmem => hk (List.mem_of_mem_drop (i := 1) hmem)

theorem endsTypes_of_kinds {more : List Piece}
    (h : ∀ k, k ∉ headKinds.drop 2 → kindOf more 0 ≠ some k) : EndsTypes .comma more :=
  ⟨⟨h _ (by decide), h _ (by decide), h _ (by decide)⟩, h _ (by decide)⟩

theorem reads_tellComponents (line : Nat) {ps : List Written.Parameter}
    (h : ∀ p ∈ ps, IsParameter p) :
    Reads (tellComponents line ps) [] (fun _ => True)
      (ps.flatMap fun p => fieldEvents (componentField line p (p.name.getD ""))) () := by
  induction ps with
  | nil => exact .pure _
  | cons p ps ih =>
    obtain ⟨name, hname, _⟩ := (h p List.mem_cons_self).name
    simp only [tellComponents, hname, List.flatMap_cons, Option.getD_some]
    exact .say (reads_tellField _) (ih fun q hq => h q (List.mem_cons_of_mem _ hq))

/-! ### Members -/

/-- Pieces do not begin like the end of a body or like a block. -/
structure BeginsItem (ps : List Piece) : Prop where
  first : ∃ k, kindOf ps 0 = some k ∧ k ≠ .rightBrace ∧ k ≠ .semicolon ∧ k ≠ .leftBrace
  block : ¬ (kindOf ps 0 = some (.modifier .isStatic) ∧ kindOf ps 1 = some .leftBrace)

/-- Members are read one by one up to the brace that closes the body. -/
theorem reads_members {readClass : ReadClass} {owner : ClassKind} {className : String} {ι : Type}
    {words : ι → List Word} {events : ι → List Event} {items : List ι}
    (hbegins : ∀ i ∈ items, ∀ more, BeginsItem (spell (words i) ++ more))
    (hitems : ∀ i ∈ items, Reads (member readClass owner className) (spell (words i))
      (fun _ => True) (events i) ()) {n : Nat}
    (hn : (spell (items.flatMap words ++ [.sign .rightBrace])).length < n) :
    Reads (unroll (membersBody readClass owner className) n ())
      (spell (items.flatMap words ++ [.sign .rightBrace])) (fun _ => True) (items.flatMap events)
      () := by
  induction items generalizing n with
  | nil =>
    match n, hn with
    | n + 1, _ =>
      simp (disch := decide) only [List.flatMap_nil, List.nil_append, spell_cons, pieces_sign,
        spell_nil]
      refine .lookAhead (q := skip 1) (fun more ls _ hls => ?_) (.skip [_])
      rw [hls.kindAt]
      rfl
  | cons i is ih =>
    match n, hn with
    | n + 1, hn =>
      have hbegin := hbegins i List.mem_cons_self
      rw [List.flatMap_cons, List.append_assoc, spell_append] at hn ⊢
      have hpos : 0 < (spell (words i)).length := by
        obtain ⟨k, hk, _⟩ := (hbegin []).first
        rw [List.append_nil] at hk
        exact List.length_pos_of_ne_nil (ne_nil_of_kindOf hk)
      rw [List.length_append] at hn
      show Reads (membersBody readClass owner className _ ()) _ _ _ _
      rw [membersBody_eq]
      refine .lookAhead (q := member readClass owner className >>= fun _ =>
        unroll (membersBody readClass owner className) n ()) (fun more ls _ hls => ?_) ?_
      · rw [List.append_assoc] at hls
        obtain ⟨⟨k, hk, hbrace, hsemicolon, hopen⟩, hblock⟩ :=
          hbegin (spell (is.flatMap words ++ [.sign .rightBrace]) ++ more)
        have hzero : Lexeme.kindAt ls 0 = some k := (hls.kindAt 0).trans hk
        rw [hk, ← hls.kindAt 1] at hblock
        rw [hzero]
        split
        · rename_i heq
          cases heq
        · rename_i heq
          cases heq
          exact absurd rfl hbrace
        · rename_i heq
          cases heq
          exact absurd rfl hsemicolon
        · rename_i heq
          cases heq
          exact absurd rfl hopen
        · rename_i heq
          cases heq
          refine if_neg fun h => hblock ?_
          simpa using h
      · exact (hitems i List.mem_cons_self).bind
          (ih (fun j hj => hbegins j (List.mem_cons_of_mem _ hj))
            (fun j hj => hitems j (List.mem_cons_of_mem _ hj)) (by omega)) fun _ _ => trivial

/-! ### Bodies -/

theorem reads_classBody {readClass : ReadClass} {kind : ClassKind} {name : String}
    {constants : List Written.Field} {members : List Word} {told : List Event}
    (hconstants : ∀ f ∈ constants, IsConstant name f) (hnil : kind ≠ .enumType → constants = [])
    (hmembers : Reads (recurse (membersBody readClass kind name) ())
      (spell (members ++ [.sign .rightBrace])) (fun _ => True) told ()) :
    Reads (classBody readClass kind name)
      (spell (.sign .leftBrace :: ((if kind = .enumType then constantsWords constants else []) ++
        (members ++ [.sign .rightBrace]))))
      (fun _ => True) (constants.flatMap fieldEvents ++ told) () := by
  rw [spell_cons, pieces_sign rfl, spell_append]
  refine .step (.expect rfl _) ?_
  by_cases hkind : kind = .enumType
  · simp only [hkind, if_true] at hmembers ⊢
    exact (reads_constants hconstants).bind hmembers fun _ _ => trivial
  · simp only [hkind, if_false, hnil hkind]
    exact hmembers

theorem length_kindWords (kind : ClassKind) :
    (spell (kindWords kind)).length = kindLength kind := by
  cases kind <;> decide +kernel

theorem reads_head {c : Written.Class} (h : IsHead c) {components : List Written.Parameter}
    (hcomponents : ∀ p ∈ components, IsParameter p)
    (hnil : c.kind ≠ .recordType → components = []) {readClass : ReadClass} {body : List Word}
    {told : List Event} (hbrace : kindOf (spell body) 0 = some .leftBrace)
    (hbody : Reads (classBody readClass c.kind c.name) (spell body) (fun _ => True) told ()) :
    Reads (classBodyOf readClass (c.kind, ⟨⟨c.modifiers, c.annotations⟩, none, c.line⟩))
      (spell (kindWords c.kind ++ (.of c.name :: (headWords c components ++ body))))
      (fun _ => True) (.beginClass c :: (componentEvents c components ++ (told ++ [.endClass])))
      () := by
  have hbody' : ∀ more, kindOf (spell body ++ more) 0 = some .leftBrace := kindOf_append hbrace
  have hskip : Reads (skip (kindLength c.kind)) (spell (kindWords c.kind)) (fun _ => True) []
      () := by
    rw [← length_kindWords]
    exact .skip _
  have hparameters : Reads (if c.kind = .recordType then parameters else pure [])
      (spell (componentsWords c.kind components)) (fun _ => True) [] components := by
    by_cases hkind : c.kind = .recordType
    · simp only [componentsWords, hkind, if_true]
      exact reads_parameters hcomponents
    · simp only [componentsWords, hkind, if_false, hnil hkind]
      exact .pure _
  simp only [spell_append, spell_cons, h.name.pieces, headWords, List.append_assoc,
    List.cons_append, List.nil_append]
  refine .quiet hskip (fun _ _ => trivial) (.step (.identifier rfl _) ?_)
  refine .quiet (reads_typeParameters h.typeParameters) (fun more _ => ?_) ?_
  · have hless := kindOf_components c components (hbody' more)
      (by decide : .less ∉ headKinds.drop 1)
    simpa using hless
  refine .quiet hparameters (fun _ _ => trivial) ?_
  refine .quiet (reads_extendedTypes h.extending h.superclass h.superless) (fun more _ => ?_) ?_
  · have hkinds : ∀ k, k ∉ headKinds.drop 3 → kindOf (spell (typesBehind .implementsWord
        c.implementing) ++ (spell (permittedWords c.permitting) ++ (spell body ++ more))) 0 ≠
          some k := by
      intro k hk
      have hkind := kindOf_implementing (c := c) (hbody' more) hk
      rwa [spell_append, List.append_assoc] at hkind
    simp only [List.append_assoc]
    exact ⟨endsTypes_of_kinds fun k hk => hkinds k fun h => hk (List.mem_of_mem_drop (i := 1) h),
      hkinds _ (by decide)⟩
  refine .quiet (reads_typesAfter rfl h.implementing) (fun more _ => ?_) ?_
  · have hkinds : ∀ k, k ∉ headKinds.drop 4 → kindOf (spell (permittedWords c.permitting) ++
        (spell body ++ more)) 0 ≠ some k := fun k hk => kindOf_permitted (hbody' more) hk
    simp only [List.append_assoc]
    exact ⟨endsTypes_of_kinds fun k hk => hkinds k fun h => hk (List.mem_of_mem_drop (i := 2) h),
      hkinds _ (by decide)⟩
  refine .quiet (reads_permittedTypes h.permitting) (fun more _ => hbody' more) ?_
  have hend : Reads (classBody readClass c.kind c.name >>= fun _ => tell .endClass) (spell body)
      (fun _ => True) (told ++ [.endClass]) () := by
    rw [← List.append_nil (spell body)]
    exact .bind hbody (.tell_last _) fun _ _ => trivial
  refine .pass (.tell _ ?_)
  by_cases hkind : c.kind = .recordType
  · simp only [componentEvents, hkind, if_true, List.append_assoc] at hend ⊢
    exact .say (reads_tellComponents c.line hcomponents) (.say (reads_tellMethod _) hend)
  · simp only [componentEvents, hkind, if_false, List.nil_append]
    exact hend

/-! ### The first words of a declaration -/

/-- The kinds that a member begins with behind its modifiers and annotations. -/
def startKinds : List TokenKind :=
  [.less, .identifier, .primitive, .classWord, .interfaceWord, .enumWord, .atSign]

/-- Behind modifiers and annotations stands neither the end of a body nor a block. -/
theorem beginsItem_of_start {ms : List Modifier} {notes : List (AnnotationUse String)}
    (hnotes : ∀ a ∈ notes, IsMarker a) {vs : List Word} {k : TokenKind} (hk : k ∈ startKinds)
    (hvs : kindOf (spell vs) 0 = some k) (n : Nat) (more : List Piece) :
    BeginsItem (spell (onLine n (decorations ms notes ++ vs)) ++ more) := by
  have hrest : kindOf (spell vs ++ more) 0 = some k := kindOf_append hvs more
  have hne : ∀ k', k' ∉ startKinds → k ≠ k' := by
    rintro k' hk' rfl
    exact hk' hk
  suffices h : BeginsItem (spell (decorations ms notes ++ vs) ++ more) by
    obtain ⟨hfirst, hblock⟩ := h
    rw [← kindOf_onLine n] at hfirst hblock
    rw [← kindOf_onLine n (decorations ms notes ++ vs) more 1] at hblock
    exact ⟨hfirst, hblock⟩
  rw [spell_append, List.append_assoc]
  cases notes with
  | cons a notes =>
    obtain ⟨first, segments, hspell⟩ := spell_marker (hnotes a List.mem_cons_self)
    simp only [decorations, annotations, List.flatMap_cons, spell_append, hspell, List.cons_append]
    exact ⟨⟨_, rfl, by decide, by decide, by decide⟩, by simp⟩
  | nil =>
    cases ms with
    | nil =>
      refine ⟨⟨k, hrest, hne _ (by decide), hne _ (by decide), hne _ (by decide)⟩, ?_⟩
      rintro ⟨hstatic, _⟩
      have hkind : some k = some (.modifier .isStatic) := hrest.symm.trans hstatic
      cases hkind
      exact absurd hk (by decide)
    | cons m ms =>
      have hsecond : kindOf (spell (decorations ms []) ++ (spell vs ++ more)) 0 ≠
          some .leftBrace := by
        refine kindOf_decorated (by simp) (by decide) (by simp) (by decide) ?_
        rw [hrest]
        exact fun h => hne .leftBrace (by decide) (Option.some.inj h)
      simp only [decorations, annotations, List.flatMap_nil, List.nil_append, spell_modifiers,
        List.flatMap_cons, List.append_assoc] at hsecond ⊢
      refine ⟨?_, ?_⟩
      · rcases kindOf_modifierPieces m (ms.flatMap modifierPieces ++ (spell vs ++ more)) with h | h
        · exact ⟨_, h, by simp, by simp, by simp⟩
        · exact ⟨_, h, by decide, by decide, by decide⟩
      · rintro ⟨hstatic, hbrace⟩
        cases m <;> simp [modifierPieces] at hstatic hbrace
        exact hsecond hbrace

theorem beginsItem_of_member {ms : List Modifier} {notes : List (AnnotationUse String)}
    (hnotes : ∀ a ∈ notes, IsMarker a) {vs : List Word} (h : BeginsMember (spell vs)) (n : Nat)
    (more : List Piece) : BeginsItem (spell (onLine n (decorations ms notes ++ vs)) ++ more) := by
  rcases h with hkind | ⟨p, ps, hps, hp⟩
  · exact beginsItem_of_start hnotes (by decide) hkind n more
  · have hkind : kindOf (spell vs) 0 = some p.kind := by rw [hps]; rfl
    refine beginsItem_of_start hnotes ?_ hkind n more
    rcases hp with hp | ⟨hp, _⟩ <;> rw [hp] <;> decide

/-- The words of a head follow those of its kind. -/
theorem kindOf_kindWords (kind : ClassKind) (vs : List Word) :
    ∃ k ∈ startKinds, kindOf (spell (kindWords kind ++ vs)) 0 = some k := by
  rw [spell_append]
  cases kind with
  | recordType =>
    refine ⟨.identifier, by decide, ?_⟩
    rw [kindWords, spell_cons, Word.of, isToken_record.pieces []]
    rfl
  | _ =>
    simp (disch := decide) only [kindWords, spell_cons, pieces_sign, spell_nil]
    exact ⟨_, by decide, rfl⟩

theorem endsDecorations_kindWords {c : Written.Class} (h : IsHead c) (vs : List Word)
    (more : List Piece) :
    EndsDecorations c.modifiers (spell (kindWords c.kind ++ vs) ++ more) := by
  have hmodifiers := h.modifiers
  cases hkind : c.kind with
  | recordType =>
    simp only [hkind, reduceCtorEq, false_or] at hmodifiers
    rw [kindWords, spell_append, spell_cons, Word.of, isToken_record.pieces []]
    refine ⟨⟨by simp, by simp, by simp⟩, fun ls hls => ?_, fun hm => absurd hm hmodifiers.1⟩
    simp [modifierAt?, hls.kindAt, hls.isWordAt]
  | enumType =>
    simp only [hkind, reduceCtorEq, false_or] at hmodifiers
    simp (disch := decide) only [kindWords, spell_append, spell_cons, pieces_sign, spell_nil]
    refine ⟨⟨by simp, by simp, by simp⟩, fun ls hls => ?_, fun hm => absurd hm hmodifiers.1⟩
    simp [modifierAt?, hls.kindAt, hls.isWordAt]
  | _ =>
    simp (disch := decide) only [kindWords, spell_append, spell_cons, pieces_sign, spell_nil]
    refine ⟨⟨by simp, by simp, by simp⟩, fun ls hls => ?_, fun _ => by simp [followsSealed]⟩
    simp [modifierAt?, hls.kindAt, hls.isWordAt]

theorem declarationKind?_kindWords {c : Written.Class} (h : IsHead c)
    {components : List Written.Parameter} {vs : List Word} {more : List Piece} {ls : List Lexeme}
    (hls : Spelled (spell (kindWords c.kind ++ (.of c.name :: (headWords c components ++ vs))) ++
      more) ls) : declarationKind? ls = some c.kind := by
  cases hkind : c.kind with
  | recordType =>
    have hthird : kindOf (spell (headWords c components ++ vs) ++ more) 0 = some .leftParen ∨
        kindOf (spell (headWords c components ++ vs) ++ more) 0 = some .less := by
      simp only [headWords, componentsWords, hkind, if_true]
      cases c.typeParameters with
      | nil =>
        simp (disch := decide) only [List.map_nil, angled, List.nil_append, parametersWords,
          spell_append, spell_cons, pieces_sign]
        exact .inl rfl
      | cons p ps =>
        simp (disch := decide) only [List.map_cons, angled, spell_append, spell_cons, pieces_sign]
        exact .inr rfl
    rw [hkind, kindWords, spell_append, spell_cons, Word.of, isToken_record.pieces [],
      spell_cons, h.name.pieces] at hls
    rcases hthird with h | h <;>
      simp [declarationKind?, hls.kindAt, hls.isWordAt, -spell_append, h]
  | _ =>
    simp (disch := decide) only [hkind, kindWords, spell_append, spell_cons, pieces_sign,
      spell_nil] at hls
    simp [declarationKind?, hls.kindAt]

/-! ### Whole declarations -/

theorem free_kindWords (kind : ClassKind) : ∀ w ∈ kindWords kind, w.Free := by
  cases kind with
  | recordType => simpa [kindWords] using isToken_record.free rfl
  | annotationType => simpa [kindWords] using ⟨Word.free_sign rfl, Word.free_sign rfl⟩
  | _ => simpa [kindWords] using Word.free_sign rfl

theorem free_headWords {c : Written.Class} (h : IsHead c) {components : List Written.Parameter}
    (hcomponents : ∀ p ∈ components, IsParameter p) : ∀ w ∈ headWords c components, w.Free := by
  simp only [headWords, componentsWords, List.forall_mem_append]
  refine ⟨free_typeParameters h.typeParameters, ?_, free_typesBehind rfl h.extending,
    free_typesBehind rfl h.implementing, ?_⟩
  · split
    · exact free_parameters hcomponents
    · simp
  · cases hpermitting : c.permitting with
    | nil => simp [permittedWords]
    | cons t ts =>
      simp only [permittedWords, List.forall_mem_cons]
      exact ⟨isToken_permits.free rfl, free_types rfl (hpermitting ▸ h.permitting)⟩

theorem clean_constants {enum : String} {fs : List Written.Field}
    (h : ∀ f ∈ fs, IsConstant enum f) : ∀ w ∈ constantsWords fs, w.Clean := by
  simp only [constantsWords, List.forall_mem_append]
  refine ⟨forall_mem_listed (Word.free_sign rfl).toClean fun ws hws => ?_,
    by simpa using (Word.free_sign rfl).toClean⟩
  obtain ⟨f, hf, rfl⟩ := List.mem_map.mp hws
  exact Clean.onLine (clean_of_free (free_constant (h f hf))) _

theorem clean_wordsAround {c : Written.Class} (h : IsHead c) {components : List Written.Parameter}
    (hcomponents : ∀ p ∈ components, IsParameter p) {constants : List Written.Field}
    (hconstants : ∀ f ∈ constants, IsConstant c.name f) {members : List Word}
    (hmembers : ∀ w ∈ members, w.Clean) :
    ∀ w ∈ wordsAround c components constants members, w.Clean := by
  simp only [wordsAround, List.forall_mem_append, List.forall_mem_cons]
  refine ⟨clean_of_free (free_kindWords _), h.name.free.toClean,
    clean_of_free (free_headWords h hcomponents), (Word.free_sign rfl).toClean, ?_, hmembers,
    (Word.free_sign rfl).toClean, by simp⟩
  split
  · exact clean_constants hconstants
  · simp

/-- The words of what can be printed are words. -/
theorem IsDeclaration.clean {d : Declaration} (h : IsDeclaration d) :
    ∀ w ∈ declarationWords d, w.Clean := by
  induction h with
  | @mk c components constants members head hcomponents _ hconstants _ hfields hmethods _ ih =>
    refine Clean.onLine ?_ _
    rw [List.forall_mem_append]
    refine ⟨clean_of_free (free_decorations head.annotations),
      clean_wordsAround head hcomponents hconstants ?_⟩
    intro w hw
    rw [membersWords_eq] at hw
    obtain ⟨i, hi, hw⟩ := List.mem_flatMap.mp hw
    cases i with
    | field f => exact clean_field (hfields f hi) w hw
    | method m => exact clean_method (hmethods m hi) w hw
    | type d => exact ih d hi w hw

/-- The words of a type declaration behind its modifiers. -/
def declarationRest (d : Declaration) : List Word :=
  wordsAround d.head d.components d.constants (membersWords d.members)

theorem declarationWords_eq (d : Declaration) :
    declarationWords d = onLine d.head.line
      (decorations d.head.modifiers d.head.annotations ++ declarationRest d) := by
  cases d
  rw [declarationWords]
  rfl

theorem length_onLine (n : Nat) (ws : List Word) :
    (spell (onLine n ws)).length = (spell ws).length := by
  cases ws with
  | nil => rfl
  | cons w ws =>
    simp only [onLine, spell_cons, List.length_append, Word.onLine, Word.pieces]
    cases (lex w.text).tokens <;> rfl

/-- A type declaration has more words than one nested in it has behind its modifiers. -/
theorem length_declarationRest_lt (c : Written.Class) (components : List Written.Parameter)
    (constants : List Written.Field) {members : List (Item Declaration)} {d : Declaration}
    (hd : .type d ∈ members) :
    (spell (declarationRest d)).length <
      (spell (declarationRest ⟨c, components, constants, members⟩)).length := by
  have hinner : (spell (declarationRest d)).length ≤ (spell (itemWords (.type d))).length := by
    rw [itemWords, declarationWords_eq, length_onLine, spell_append, List.length_append]
    omega
  have hitem : (spell (itemWords (.type d))).length ≤ (spell (membersWords members)).length := by
    induction members with
    | nil => cases hd
    | cons i is ih =>
      rw [membersWords, spell_append, List.length_append]
      rcases List.mem_cons.mp hd with rfl | hd
      · omega
      · have := ih hd
        omega
  have hmembers : (spell (membersWords members)).length <
      (spell (declarationRest ⟨c, components, constants, members⟩)).length := by
    simp (disch := decide) only [declarationRest, wordsAround, spell_append, spell_cons,
      pieces_sign, List.length_append, List.length_cons]
    omega
  omega

theorem IsDeclaration.isHead {d : Declaration} (h : IsDeclaration d) : IsHead d.head := by
  cases h with
  | mk head => exact head

theorem IsDeclaration.clean_rest {d : Declaration} (h : IsDeclaration d) :
    ∀ w ∈ declarationRest d, w.Clean := by
  cases h with
  | mk head hcomponents _ hconstants _ hfields hmethods htypes =>
    refine clean_wordsAround head hcomponents hconstants fun w hw => ?_
    simp only [membersWords_eq] at hw
    obtain ⟨i, hi, hw⟩ := List.mem_flatMap.mp hw
    cases i with
    | field f => exact clean_field (hfields f hi) w hw
    | method m => exact clean_method (hmethods m hi) w hw
    | type d => exact (htypes d hi).clean w hw

theorem kindOf_declarationRest (d : Declaration) :
    ∃ k ∈ startKinds, kindOf (spell (declarationRest d)) 0 = some k :=
  kindOf_kindWords d.head.kind _

theorem IsDeclaration.endsDecorations {d : Declaration} (h : IsDeclaration d)
    (more : List Piece) : EndsDecorations d.head.modifiers (spell (declarationRest d) ++ more) :=
  endsDecorations_kindWords h.isHead _ more

theorem IsDeclaration.beginsItem {d : Declaration} (h : IsDeclaration d) (more : List Piece) :
    BeginsItem (spell (declarationWords d) ++ more) := by
  obtain ⟨k, hk, hkind⟩ := kindOf_declarationRest d
  rw [declarationWords_eq]
  exact beginsItem_of_start h.isHead.annotations hk hkind _ more

/-- A type declaration is read by the reader of its kind, once its modifiers are passed. -/
theorem reads_declared {c : Written.Class} (h : IsHead c) {components : List Written.Parameter}
    {vs : List Word} (hclean : ∀ w ∈ kindWords c.kind ++ (.of c.name :: (headWords c components ++
      vs)), w.Clean) {told : List Event} {readClass : ReadClass} {other : Opening → Reader Unit}
    (hreads : Reads (readClass (c.kind, ⟨⟨c.modifiers, c.annotations⟩, none, c.line⟩))
      (spell (kindWords c.kind ++ (.of c.name :: (headWords c components ++ vs))))
      (fun _ => True) told ()) :
    Reads (opening >>= fun o => lookAhead >>= fun ls =>
      match declarationKind? ls with
      | some kind => readClass (kind, o)
      | none => other o)
      (spell (onLine c.line (decorations c.modifiers c.annotations ++
        (kindWords c.kind ++ (.of c.name :: (headWords c components ++ vs))))))
      (fun _ => True) told () := by
  refine reads_opening h.annotations hclean (by simp)
    (fun more _ => endsDecorations_kindWords h _ more) ?_
  refine .lookAhead (fun more ls _ hls => ?_) hreads
  rw [declarationKind?_kindWords h hls]

/-- A type declaration is read back, with enough rounds left for those nested in it. -/
theorem reads_classBodyOf {d : Declaration} (h : IsDeclaration d) {n : Nat}
    (hn : (spell (declarationRest d)).length < n) :
    Reads (unroll classBodyOf n (d.head.kind, ⟨⟨d.head.modifiers, d.head.annotations⟩, none,
      d.head.line⟩)) (spell (declarationRest d)) (fun _ => True) (declarationEvents d) () := by
  induction h generalizing n with
  | @mk c components constants members head hcomponents hcomponents_nil hconstants hconstants_nil
      hfields hmethods htypes ih =>
    match n, hn with
    | n + 1, hn =>
      have hitems : ∀ i ∈ members, Reads (member (unroll classBodyOf n) c.kind c.name)
          (spell (itemWords i)) (fun _ => True) (itemEvents i) () := by
        intro i hi
        cases i with
        | field f => exact reads_field (hfields f hi) _ _ _
        | method m => exact reads_method (hmethods m hi) _ _
        | type d =>
          have hlength := length_declarationRest_lt c components constants hi
          rw [member_eq, itemWords, declarationWords_eq]
          exact reads_declared (htypes d hi).isHead (htypes d hi).clean_rest (ih d hi (by omega))
      have hbegins : ∀ i ∈ members, ∀ more, BeginsItem (spell (itemWords i) ++ more) := by
        intro i hi more
        cases i with
        | field f =>
          exact beginsItem_of_member (hfields f hi).annotations (begins_fieldRest (hfields f hi))
            _ _
        | method m =>
          exact beginsItem_of_member (hmethods m hi).annotations (begins_methodHead (hmethods m hi))
            _ _
        | type d => exact (htypes d hi).beginsItem more
      have hbody := reads_classBody hconstants hconstants_nil
        (.recurse fun _ hm => reads_members hbegins hitems hm)
      rw [← membersWords_eq, ← membersEvents_eq] at hbody
      have hhead := reads_head head hcomponents hcomponents_nil (by
        rw [spell_cons, pieces_sign rfl]
        rfl) hbody
      rw [List.append_assoc] at hhead
      rw [declarationEvents]
      exact hhead

end JavaModel.Printing
