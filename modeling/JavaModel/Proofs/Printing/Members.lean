import JavaModel.Grammar.Declarations
import JavaModel.Proofs.Printing.RawText
import JavaModel.Proofs.Printing.Types

/-! Fields, methods, constructors and constants printed as words, and read back. -/

namespace JavaModel.Printing

open Grammar Reader

variable {β : Type}

/-! ### What stands before a declaration -/

/-- The comment, the line, the modifiers and the annotations of a declaration are read before the
rest of it. -/
theorem reads_opening {ms : List Modifier} {notes : List (AnnotationUse String)} {vs : List Word}
    (hnotes : ∀ a ∈ notes, IsMarker a) (hclean : ∀ w ∈ vs, w.Clean) (hne : vs ≠ []) {n : Nat}
    {f : Opening → Reader β} {after : List Piece → Prop} {told : List Event} {b : β}
    (hends : ∀ more, after more → EndsDecorations ms (spell vs ++ more))
    (h : Reads (f ⟨⟨ms, notes⟩, none, n⟩) (spell vs) after told b) :
    Reads (opening >>= f) (spell (onLine n (decorations ms notes ++ vs))) after told b := by
  simp only [opening, bind_assoc, pure_bind]
  refine .look .docHere (fun _ _ => trivial) ?_
  have hall : ∀ w ∈ decorations ms notes ++ vs, w.Clean := by
    rw [List.forall_mem_append]
    exact ⟨clean_of_free (free_decorations hnotes), hclean⟩
  refine .lineHere hall (by simp [hne]) ?_
  rw [spell_append]
  exact .quiet (reads_decorations hnotes) hends h

/-- The events of a field. -/
def fieldEvents (f : Written.Field) : List Event := [.beginField f, .endField]

/-- The events of a method. -/
def methodEvents (m : Written.Method) : List Event := [.beginMethod m, .endMethod]

theorem reads_tellField (f : Written.Field) {after : List Piece → Prop} :
    Reads (tellField none f) [] after (fieldEvents f) () := by
  simp only [tellField, tellDoc, pure_bind]
  exact .tell _ (.tell_last _)

theorem reads_tellMethod (m : Written.Method) {after : List Piece → Prop} :
    Reads (tellMethod none m) [] after (methodEvents m) () := by
  simp only [tellMethod, tellDoc, pure_bind]
  exact .tell _ (.tell_last _)

/-! ### Fields -/

/-- A field of names, types and an expression, with modifiers that are keywords. -/
structure IsField (f : Written.Field) : Prop where
  name : IsName f.name
  modifiers : .isSealed ∉ f.modifiers ∧ .isNonSealed ∉ f.modifiers
  annotations : ∀ a ∈ f.annotations, IsMarker a
  type : IsType f.type
  initializer : ∀ text ∈ f.initializer, IsExpression text
  isEnumConstant : f.isEnumConstant = false

/-- The words of an initializer, if there is one. -/
def initializerWords : Option String → List Word
  | none => []
  | some text => [.sign .equals, .of text]

/-- The words of a field behind its modifiers. -/
def fieldRest (f : Written.Field) : List Word :=
  typeWords f.type ++ (.of f.name :: (initializerWords f.initializer ++ [.sign .semicolon]))

/-- The words of a field. -/
def fieldWords (f : Written.Field) : List Word :=
  onLine f.line (decorations f.modifiers f.annotations ++ fieldRest f)

theorem reads_initializer {initializer : Option String}
    (h : ∀ text ∈ initializer, IsUndivided text) :
    Reads (do if ← accept .equals then pure (some (← expression)) else pure none)
      (spell (initializerWords initializer))
      (fun more => kindOf more 0 = some .comma ∨ kindOf more 0 = some .semicolon) []
      initializer := by
  cases initializer with
  | none =>
    refine .look (.accept_false .equals) (fun more hmore => ?_) (.pure _)
    rcases hmore with hmore | hmore <;> simp [initializerWords, hmore]
  | some text =>
    simp (disch := decide) only [initializerWords, spell_cons, pieces_sign, spell_nil]
    refine .step (.accept_true rfl) (.last ?_ (.pure _))
    rw [List.append_nil]
    exact reads_expression (h text rfl)

theorem kindOf_initializer (initializer : Option String) (more : List Piece) :
    kindOf (spell (initializerWords initializer) ++ more) 0 = some .equals ∨
      kindOf (spell (initializerWords initializer) ++ more) 0 = kindOf more 0 := by
  cases initializer with
  | none => exact .inr rfl
  | some text => exact .inl (by simp (disch := decide) [initializerWords])

/-- A declarator behind its name is read in front of the sign that ends it. -/
theorem reads_declarator {o : Opening} (hdoc : o.doc = none) {t : TypeExpr}
    {self : String → Reader Unit} {name : String} {initializer : Option String}
    (h : ∀ text ∈ initializer, IsUndivided text) {ps : List Piece} {told : List Event}
    (hps : kindOf ps 0 = some .comma ∨ kindOf ps 0 = some .semicolon)
    (hrest : Reads (do
      if ← accept .comma then self (← identifier .fieldName)
      else
        let _ ← expect .semicolon .fieldEnd
        pure ()) ps (fun _ => True) told ()) :
    Reads (declaratorsBody o t self name) (spell (initializerWords initializer) ++ ps)
      (fun _ => True) (fieldEvents ⟨name, o.decorations.modifiers, o.decorations.annotations, t,
        initializer, false, o.line⟩ ++ told) () := by
  have hends : ∀ more, kindOf (ps ++ more) 0 = some .comma ∨
      kindOf (ps ++ more) 0 = some .semicolon := fun more =>
    hps.imp (kindOf_append · more) (kindOf_append · more)
  refine .look (reads_dims 0) (fun more _ => ?_) ?_
  · rw [List.append_assoc]
    rcases kindOf_initializer initializer (ps ++ more) with hkind | hkind
    · rw [hkind]
      decide
    · rw [hkind]
      rcases hends more with hkind | hkind <;> rw [hkind] <;> decide
  · rw [hdoc, addDims_zero]
    exact .quiet (reads_initializer h) (fun more _ => hends more)
      (.say (reads_tellField _) hrest)

theorem reads_declarators {f : Written.Field} (h : IsField f) :
    Reads (declarators ⟨⟨f.modifiers, f.annotations⟩, none, f.line⟩ f.type f.name)
      (spell (initializerWords f.initializer ++ [.sign .semicolon])) (fun _ => True)
      (fieldEvents f) () := by
  refine .recurse fun n hn => ?_
  match n, hn with
  | n + 1, _ =>
    have hvalue : (⟨f.name, f.modifiers, f.annotations, f.type, f.initializer, false, f.line⟩ :
        Written.Field) = f := by
      rw [← h.isEnumConstant]
    simp (disch := decide) only [spell_append, spell_cons, pieces_sign, spell_nil]
    rw [← List.append_nil (fieldEvents f), ← hvalue]
    refine reads_declarator rfl (fun text ht => (h.initializer text ht).isUndivided) (.inr rfl) ?_
    exact .look (.accept_false .comma) (fun more _ => by simp) (.step (.expect rfl _) (.pure _))

/-! ### Members -/

/-- Pieces begin like a member that is no type declaration, behind its modifiers. -/
def BeginsMember (ps : List Piece) : Prop := kindOf ps 0 = some .less ∨ BeginsType ps

theorem BeginsMember.append {ps : List Piece} (h : BeginsMember ps) (more : List Piece) :
    BeginsMember (ps ++ more) := by
  rcases h with h | h
  · cases ps with
    | nil => cases h
    | cons p ps => exact .inl h
  · exact .inr (h.append more)

theorem BeginsMember.endsDecorations {ps : List Piece} (h : BeginsMember ps) {ms : List Modifier}
    (hms : .isSealed ∉ ms) : EndsDecorations ms ps := by
  rcases h with h | h
  · refine ⟨⟨by simp [h], by simp [h], by simp [h]⟩, fun ls hls => ?_, fun hm => absurd hm hms⟩
    have hword := isWordOf_eq_false ps (by simp [h])
    simp [modifierAt?, hls.kindAt, hls.isWordAt, h, hword]
  · simpa using h.endsDecorations hms []

theorem BeginsMember.declarationKind? {ps : List Piece} {ls : List Lexeme} (h : BeginsMember ps)
    (hls : Spelled ps ls) : declarationKind? ls = none := by
  rcases h with h | ⟨p, qs, rfl, hp⟩
  · have hword := isWordOf_eq_false ps (by simp [h])
    simp [Grammar.declarationKind?, hls.kindAt, hls.isWordAt, h, hword]
  · rcases hp with hp | ⟨hp, htext⟩
    · simp [Grammar.declarationKind?, hls.kindAt, hls.isWordAt, hp]
    · have hrecord : p.text ≠ "record" := fun h => htext (by simp [h, contextualWords])
      simp [Grammar.declarationKind?, hls.kindAt, hls.isWordAt, hp, hrecord]

/-- A member is read by what follows its modifiers. -/
theorem reads_member {readClass : ReadClass} {owner : ClassKind} {className : String}
    {ms : List Modifier} {notes : List (AnnotationUse String)} {vs : List Word} {n : Nat}
    {told : List Event} (hnotes : ∀ a ∈ notes, IsMarker a) (hclean : ∀ w ∈ vs, w.Clean)
    (hms : .isSealed ∉ ms) (hbegins : BeginsMember (spell vs))
    (h : Reads (memberRest owner className ⟨⟨ms, notes⟩, none, n⟩) (spell vs) (fun _ => True)
      told ()) :
    Reads (member readClass owner className) (spell (onLine n (decorations ms notes ++ vs)))
      (fun _ => True) told () := by
  have hne : vs ≠ [] := by
    rintro rfl
    rcases hbegins with h | ⟨_, _, h, _⟩ <;> cases h
  rw [member_eq]
  refine reads_opening hnotes hclean hne
    (fun more _ => (hbegins.append more).endsDecorations hms) ?_
  refine .lookAhead (fun more ls _ hls => ?_) h
  rw [(hbegins.append more).declarationKind? hls]

/-- Behind the first piece of a type in front of a name stands no bracket of a member. -/
theorem kindOf_behind_type {t : TypeExpr} (h : IsType t) {p : Piece} (hp : p.kind = .identifier)
    {k : TokenKind} (hk : k ∉ [TokenKind.dot, .less, .leftBracket, .identifier])
    (more : List Piece) : kindOf (spell (typeWords t) ++ p :: more) 1 ≠ some k := by
  have hbrackets : ∀ dims, kindOf (spell (brackets dims) ++ p :: more) 0 ≠ some k := by
    intro dims
    cases dims with
    | zero =>
      rintro ⟨rfl⟩
      exact hk (by simp [hp])
    | succ dims =>
      simp (disch := decide) only [brackets, spell_cons, pieces_sign]
      rintro ⟨rfl⟩
      exact hk (by simp)
  have hangled : ∀ wss dims, kindOf (spell (angled wss) ++ (spell (brackets dims) ++ p :: more)) 0 ≠
      some k := by
    intro wss dims
    cases wss with
    | nil => exact hbrackets dims
    | cons ws wss =>
      simp (disch := decide) only [angled, spell_cons, pieces_sign]
      rintro ⟨rfl⟩
      exact hk (by simp)
  cases h with
  | @primitive name dims h =>
    simp only [typeWords, spell_append, spell_primitive h, List.append_assoc]
    exact hangled [] dims
  | @named name args dims hname hargs =>
    cases hsegments : Name.segments name with
    | nil => exact absurd hsegments (by simp [Name.segments, Text.splitAt_ne_nil])
    | cons first segments =>
      simp only [typeWords, spell_append, spell_dotted hname hsegments, List.append_assoc,
        List.cons_append, kindOf_succ]
      cases segments with
      | nil => exact hangled _ dims
      | cons s segments =>
        rintro ⟨rfl⟩
        exact hk (by simp)

/-- A type in front of a name begins a field or a method, and no constructor. -/
theorem reads_memberTail {t : TypeExpr} (ht : IsType t) {owner : ClassKind}
    {className name : String}
    {o : Opening} {typeParams : List (TypeParameter TypeExpr)} {ps : List Piece}
    {told : List Event}
    (h : Reads (do
      if ← atKind .leftParen then methodRest o typeParams (some t) name
      else declarators o t name) ps (fun _ => True) told ()) :
    Reads (memberTail owner className o typeParams)
      (spell (typeWords t) ++ ⟨.identifier, name, none, []⟩ :: ps) (fun _ => True) told () := by
  refine .lookAhead (q := do
    let t ← type
    let name ← identifier .memberName
    if ← atKind .leftParen then methodRest o typeParams (some t) name
    else declarators o t name) (fun more ls _ hls => ?_) ?_
  · rw [List.append_assoc, List.cons_append] at hls
    have hbehind : ∀ k, k ∉ [TokenKind.dot, .less, .leftBracket, .identifier] →
        Lexeme.kindAt ls 1 ≠ some k := by
      intro k hk
      rw [hls.kindAt]
      exact kindOf_behind_type ht rfl hk _
    rw [if_neg (by simp [hbehind .leftParen (by decide)]),
      if_neg (by simp [hbehind .leftBrace (by decide)])]
  · refine .quiet (reads_type ht) (fun more _ => ⟨by simp, by simp, by simp⟩) ?_
    exact .step (.identifier rfl _) h

theorem reads_fieldRest {f : Written.Field} (h : IsField f) (owner : ClassKind)
    (className : String) :
    Reads (memberRest owner className ⟨⟨f.modifiers, f.annotations⟩, none, f.line⟩)
      (spell (fieldRest f)) (fun _ => True) (fieldEvents f) () := by
  have hpieces : spell (fieldRest f) = spell (typeWords f.type) ++
      ⟨.identifier, f.name, none, []⟩ ::
        spell (initializerWords f.initializer ++ [.sign .semicolon]) := by
    rw [fieldRest, spell_append, spell_cons, h.name.pieces]
    rfl
  rw [hpieces]
  have hnone : Reads typeParameters [] (fun more => kindOf more 0 ≠ some .less) [] [] :=
    .look (.accept_false .less) (fun _ hmore => hmore) (.pure _)
  refine .look hnone (fun more _ => ?_) ?_
  · rw [List.append_assoc]
    exact h.type.begins.kind_ne (by decide) (by decide) _
  refine reads_memberTail h.type (.look (.atKind .leftParen false) (fun more _ => ?_)
    (reads_declarators h))
  rw [spell_append, List.append_assoc]
  rcases kindOf_initializer f.initializer (spell [.sign .semicolon] ++ more) with hkind | hkind
  · rw [hkind]
    decide
  · rw [hkind]
    simp (disch := decide)

theorem free_fieldRest {f : Written.Field} (h : IsField f) : ∀ w ∈ fieldRest f, w.Free := by
  simp only [fieldRest, List.forall_mem_append, List.forall_mem_cons]
  refine ⟨h.type.free, h.name.free, ?_, Word.free_sign rfl, by simp⟩
  cases hinitializer : f.initializer with
  | none => exact fun _ hw => absurd hw List.not_mem_nil
  | some text =>
    simp only [initializerWords, List.forall_mem_cons]
    exact ⟨Word.free_sign rfl, (h.initializer text hinitializer).free, by simp⟩

theorem begins_fieldRest {f : Written.Field} (h : IsField f) :
    BeginsMember (spell (fieldRest f)) := by
  rw [fieldRest, spell_append]
  exact .inr (h.type.begins.append _)

theorem clean_field {f : Written.Field} (h : IsField f) : ∀ w ∈ fieldWords f, w.Clean := by
  refine Clean.onLine (clean_of_free ?_) _
  rw [List.forall_mem_append]
  exact ⟨free_decorations h.annotations, free_fieldRest h⟩

/-- A field is read back. -/
theorem reads_field {f : Written.Field} (h : IsField f) (readClass : ReadClass) (owner : ClassKind)
    (className : String) :
    Reads (member readClass owner className) (spell (fieldWords f)) (fun _ => True)
      (fieldEvents f) () :=
  reads_member h.annotations (clean_of_free (free_fieldRest h)) h.modifiers.1 (begins_fieldRest h)
    (reads_fieldRest h owner className)

/-! ### Methods and constructors -/

/-- A method or a constructor of names and types, with modifiers that are keywords and raw text as
its body. A constructor has the name of its class. -/
structure IsMethod (className : String) (m : Written.Method) : Prop where
  name : IsName m.name
  constructor : m.returnType = none → m.name = className
  modifiers : .isSealed ∉ m.modifiers ∧ .isNonSealed ∉ m.modifiers
  annotations : ∀ a ∈ m.annotations, IsMarker a
  typeParameters : ∀ p ∈ m.typeParameters, IsTypeParameter p
  returnType : ∀ t ∈ m.returnType, IsType t
  parameters : ∀ p ∈ m.parameters, IsParameter p
  throwing : ∀ t ∈ m.throwing, IsType t
  body : ∀ text ∈ m.body, IsRaw (fun _ => true) text
  defaultValue : m.defaultValue = none

/-- The words of a body, or of the sign that stands for a missing one. -/
def bodyWords : Option String → List Word
  | none => [.sign .semicolon]
  | some text => [.sign .leftBrace, .of text, .sign .rightBrace]

/-- The words of a method from its parameters on. -/
def methodTail (m : Written.Method) : List Word :=
  parametersWords m.parameters ++ (typesBehind .throwsWord m.throwing ++ bodyWords m.body)

/-- The words of a method behind its modifiers. -/
def methodHead (m : Written.Method) : List Word :=
  angled (m.typeParameters.map typeParameterWords) ++
    ((m.returnType.map typeWords).getD [] ++ (.of m.name :: methodTail m))

/-- The words of a method or a constructor. -/
def methodWords (m : Written.Method) : List Word :=
  onLine m.line (decorations m.modifiers m.annotations ++ methodHead m)

theorem kindOf_body (body : Option String) (more : List Piece) :
    kindOf (spell (bodyWords body) ++ more) 0 = some .semicolon ∨
      kindOf (spell (bodyWords body) ++ more) 0 = some .leftBrace := by
  cases body with
  | none => exact .inl (by simp (disch := decide) [bodyWords])
  | some text => exact .inr (by simp (disch := decide) [bodyWords])

theorem kindOf_typesBehind (word : TokenKind) (hword : word.sign.isSome) (ts : List TypeExpr)
    (more : List Piece) : kindOf (spell (typesBehind word ts) ++ more) 0 = some word ∨
      kindOf (spell (typesBehind word ts) ++ more) 0 = kindOf more 0 := by
  cases ts with
  | nil => exact .inr rfl
  | cons t ts => exact .inl (by simp [typesBehind, pieces_sign hword])

theorem reads_body {body : Option String} (h : ∀ text ∈ body, IsRaw (fun _ => true) text) :
    Reads (do
      if ← atKind .leftBrace then pure (some (← enclosed .brace))
      else
        let _ ← expect .semicolon .methodEnd
        pure none) (spell (bodyWords body)) (fun _ => True) [] body := by
  cases body with
  | none =>
    simp (disch := decide) only [bodyWords, spell_cons, pieces_sign, spell_nil]
    exact .look (.atKind .leftBrace false) (fun more _ => by simp)
      (.step (.expect rfl _) (.pure _))
  | some text =>
    simp (disch := decide) only [bodyWords, spell_cons, pieces_sign, spell_nil]
    exact .look (.atKind .leftBrace true) (fun more _ => by simp)
      (.last (reads_enclosed .brace (h text rfl) rfl rfl) (.pure _))

theorem reads_methodTail {className : String} {m : Written.Method} (h : IsMethod className m) :
    Reads (methodRest ⟨⟨m.modifiers, m.annotations⟩, none, m.line⟩ m.typeParameters m.returnType
      m.name) (spell (methodTail m)) (fun _ => True) (methodEvents m) () := by
  have hends : ∀ more k, k ∉ [TokenKind.throwsWord, .semicolon, .leftBrace] →
      kindOf (spell (typesBehind .throwsWord m.throwing ++ bodyWords m.body) ++ more) 0 ≠
        some k := by
    intro more k hk
    rw [spell_append, List.append_assoc]
    rcases kindOf_typesBehind .throwsWord rfl m.throwing
      (spell (bodyWords m.body) ++ more) with hkind | hkind
    · rw [hkind]
      rintro ⟨rfl⟩
      exact hk (by simp)
    · rw [hkind]
      rcases kindOf_body m.body more with hkind | hkind <;>
        · rw [hkind]
          rintro ⟨rfl⟩
          exact hk (by simp)
  have hbody : ∀ more k, k ∉ [TokenKind.semicolon, .leftBrace] →
      kindOf (spell (bodyWords m.body) ++ more) 0 ≠ some k := by
    intro more k hk
    rcases kindOf_body m.body more with hkind | hkind <;>
      · rw [hkind]
        rintro ⟨rfl⟩
        exact hk (by simp)
  have hvalue : (⟨m.name, m.modifiers, m.annotations, m.typeParameters,
      m.returnType.map (·.addDims 0), m.parameters, m.throwing, m.body, none, m.line⟩ :
        Written.Method) = m := by
    have hreturn : m.returnType.map (·.addDims 0) = m.returnType := by
      cases m.returnType <;> simp [addDims_zero]
    rw [hreturn, ← h.defaultValue]
  rw [methodTail, spell_append]
  refine .quiet (reads_parameters h.parameters) (fun _ _ => trivial) ?_
  refine .look (reads_dims 0) (fun more _ => hends more _ (by decide)) ?_
  rw [spell_append]
  refine .quiet (reads_typesAfter rfl h.throwing) (fun more _ => ?_) ?_
  · exact ⟨⟨⟨hbody more _ (by decide), hbody more _ (by decide), hbody more _ (by decide)⟩,
      hbody more _ (by decide)⟩, hbody more _ (by decide)⟩
  have hdefault : Reads (do
      if ← accept (.modifier .isDefault) then pure (some (← expression)) else pure none) []
      (fun more => kindOf more 0 ≠ some (.modifier .isDefault)) [] none :=
    .look (.accept_false _) (fun _ hmore => hmore) (.pure _)
  refine .look hdefault (fun more _ => hbody more _ (by decide)) ?_
  have htell : Reads (tellMethod none ⟨m.name, m.modifiers, m.annotations, m.typeParameters,
      m.returnType.map (·.addDims 0), m.parameters, m.throwing, m.body, none, m.line⟩) []
      (fun _ => True) (methodEvents m) () := by
    rw [hvalue]
    exact reads_tellMethod m
  exact .finish (reads_body h.body) htell

theorem reads_methodHead {className : String} {m : Written.Method} (h : IsMethod className m)
    (owner : ClassKind) :
    Reads (memberRest owner className ⟨⟨m.modifiers, m.annotations⟩, none, m.line⟩)
      (spell (methodHead m)) (fun _ => True) (methodEvents m) () := by
  have htail := reads_methodTail h
  have hparen : ∃ tail, spell (methodTail m) = ⟨.leftParen, "(", none, []⟩ :: tail := by
    simp (disch := decide) only [methodTail, parametersWords, spell_append, spell_cons,
      pieces_sign]
    exact ⟨_, rfl⟩
  have hname : spell (.of m.name :: methodTail m) =
      ⟨.identifier, m.name, none, []⟩ :: spell (methodTail m) := by
    rw [spell_cons, h.name.pieces]
    rfl
  obtain ⟨tail, hparen⟩ := hparen
  rw [methodHead, spell_append, spell_append, hname]
  cases hreturn : m.returnType with
  | none =>
    simp only [Option.map_none, Option.getD_none, spell_nil, List.nil_append]
    refine .quiet (reads_typeParameters h.typeParameters) (fun more _ => by simp) ?_
    refine .lookAhead (q := do
      skip 1
      methodRest ⟨⟨m.modifiers, m.annotations⟩, none, m.line⟩ m.typeParameters none className)
      (fun more ls _ hls => ?_) ?_
    · rw [hparen] at hls
      exact if_pos (by simp [hls.kindAt, hls.isWordAt, h.constructor hreturn])
    · rw [hreturn, h.constructor hreturn] at htail
      exact .step (.skip [_]) htail
  | some t =>
    have ht := h.returnType t hreturn
    simp only [Option.map_some, Option.getD_some]
    refine .quiet (reads_typeParameters h.typeParameters) (fun more _ => ?_) ?_
    · rw [List.append_assoc]
      exact ht.begins.kind_ne (by decide) (by decide) _
    refine reads_memberTail ht (.look (.atKind .leftParen true) (fun more _ => ?_) ?_)
    · simp [hparen]
    · rw [hreturn] at htail
      exact htail

theorem free_methodHead {className : String} {m : Written.Method} (h : IsMethod className m) :
    ∀ w ∈ methodHead m, w.Free := by
  simp only [methodHead, methodTail, List.forall_mem_append, List.forall_mem_cons]
  refine ⟨free_typeParameters h.typeParameters, ?_, h.name.free, free_parameters h.parameters,
    free_typesBehind rfl h.throwing, ?_⟩
  · cases hreturn : m.returnType with
    | none => exact fun _ hw => absurd hw List.not_mem_nil
    | some t => exact (h.returnType t hreturn).free
  · cases hbody : m.body with
    | none => simpa [bodyWords] using Word.free_sign rfl
    | some text =>
      simp only [bodyWords, List.forall_mem_cons]
      exact ⟨Word.free_sign rfl, (h.body text hbody).free, Word.free_sign rfl, by simp⟩

theorem begins_methodHead {className : String} {m : Written.Method} (h : IsMethod className m) :
    BeginsMember (spell (methodHead m)) := by
  rw [methodHead, spell_append, spell_append]
  cases m.typeParameters with
  | cons p ps => exact .inl (by simp (disch := decide) [angled])
  | nil =>
    right
    cases hreturn : m.returnType with
    | some t => exact ((h.returnType t hreturn).begins).append _
    | none =>
      rw [spell_cons, h.name.pieces]
      exact ⟨_, _, rfl, .inr ⟨rfl, h.name.plain⟩⟩

theorem clean_method {className : String} {m : Written.Method} (h : IsMethod className m) :
    ∀ w ∈ methodWords m, w.Clean := by
  refine Clean.onLine (clean_of_free ?_) _
  rw [List.forall_mem_append]
  exact ⟨free_decorations h.annotations, free_methodHead h⟩

/-- A method or a constructor is read back. -/
theorem reads_method {className : String} {m : Written.Method} (h : IsMethod className m)
    (readClass : ReadClass) (owner : ClassKind) :
    Reads (member readClass owner className) (spell (methodWords m)) (fun _ => True)
      (methodEvents m) () :=
  reads_member h.annotations (clean_of_free (free_methodHead h)) h.modifiers.1 (begins_methodHead h)
    (reads_methodHead h owner)

/-! ### Constants of an enum -/

/-- A constant of an enum, with the modifiers and the type that every constant has. -/
structure IsConstant (enum : String) (f : Written.Field) : Prop where
  name : IsName f.name
  annotations : ∀ a ∈ f.annotations, IsMarker a
  arguments : ∀ text ∈ f.initializer, IsRaw (fun _ => true) text
  modifiers : f.modifiers = constantModifiers
  type : f.type = .simple enum
  isEnumConstant : f.isEnumConstant = true

/-- The words of the arguments of a constant, if there are any. -/
def constantArguments : Option String → List Word
  | none => []
  | some text => [.sign .leftParen, .of text, .sign .rightParen]

/-- The words of a constant. -/
def constantWords (f : Written.Field) : List Word :=
  onLine f.line (annotations f.annotations ++ (.of f.name :: constantArguments f.initializer))

/-- The words of the constants of an enum. -/
def constantsWords (fs : List Written.Field) : List Word :=
  listed .comma (fs.map constantWords) ++ [.sign .semicolon]

theorem free_constant {enum : String} {f : Written.Field} (h : IsConstant enum f) :
    ∀ w ∈ annotations f.annotations ++ (.of f.name :: constantArguments f.initializer), w.Free := by
  simp only [List.forall_mem_append, List.forall_mem_cons]
  refine ⟨free_annotations h.annotations, h.name.free, ?_⟩
  cases hinitializer : f.initializer with
  | none => exact fun _ hw => absurd hw List.not_mem_nil
  | some text =>
    simp only [constantArguments, List.forall_mem_cons]
    exact ⟨Word.free_sign rfl, (h.arguments text hinitializer).free, Word.free_sign rfl, by simp⟩

theorem reads_constantArguments {arguments : Option String}
    (h : ∀ text ∈ arguments, IsRaw (fun _ => true) text) :
    Reads (do if ← atKind .leftParen then pure (some (← enclosed .paren)) else pure none)
      (spell (constantArguments arguments)) (fun more => kindOf more 0 ≠ some .leftParen) []
      arguments := by
  cases arguments with
  | none => exact .look (.atKind .leftParen false) (fun _ hmore => decide_eq_false hmore) (.pure _)
  | some text =>
    simp (disch := decide) only [constantArguments, spell_cons, pieces_sign, spell_nil]
    refine .look (.atKind .leftParen true) (fun more _ => by simp) (.last ?_ (.pure _))
    exact (reads_enclosed .paren (h text rfl) rfl rfl).mono fun _ _ => trivial

/-- A constant is read back in front of the sign behind it. -/
theorem reads_constantThen {enum : String} {f : Written.Field} (h : IsConstant enum f)
    {next : Reader Unit} {ps : List Piece} {told : List Event}
    (hps : kindOf ps 0 = some .comma ∨ kindOf ps 0 = some .semicolon)
    (hnext : Reads next ps (fun _ => True) told ()) :
    Reads (constantThen enum next) (spell (constantWords f) ++ ps) (fun _ => True)
      (fieldEvents f ++ told) () := by
  have hends : ∀ more k, k ∉ [TokenKind.comma, .semicolon] → kindOf (ps ++ more) 0 ≠ some k := by
    intro more k hk
    cases ps with
    | nil => simp at hps
    | cons p ps =>
      rintro ⟨rfl⟩
      rw [kindOf_zero, Option.some.injEq, Option.some.injEq] at hps
      exact hk (by simpa using hps)
  have hvalue : (⟨f.name, constantModifiers, f.annotations, .simple enum, f.initializer, true,
      f.line⟩ : Written.Field) = f := by
    rw [← h.modifiers, ← h.type, ← h.isEnumConstant]
  have htell : Reads (tellField none ⟨f.name, constantModifiers, f.annotations, .simple enum,
      f.initializer, true, f.line⟩) [] (fun _ => True) (fieldEvents f) () := by
    rw [hvalue]
    exact reads_tellField f
  refine .look .docHere (fun _ _ => trivial) ?_
  refine .lineHere_append (clean_of_free (free_constant h)) (by simp) ?_
  simp only [spell_append, spell_cons, h.name.pieces, List.append_assoc, List.cons_append,
    List.nil_append]
  refine .quiet (reads_annotations h.annotations) (fun more _ => ⟨by simp, by simp, by simp⟩) ?_
  refine .step (.identifier rfl _) (.quiet (reads_constantArguments h.arguments)
    (fun more _ => hends more _ (by decide)) ?_)
  refine .look (.atKind .leftBrace false) (fun more _ => ?_) ?_
  · exact decide_eq_false (hends more _ (by decide))
  · exact .say htell hnext

theorem kindOf_constant {enum : String} {f : Written.Field} (h : IsConstant enum f)
    (more : List Piece) :
    kindOf (spell (constantWords f) ++ more) 0 = some .atSign ∨
      kindOf (spell (constantWords f) ++ more) 0 = some .identifier := by
  rw [constantWords, kindOf_onLine]
  cases hnotes : f.annotations with
  | nil => exact .inr (by simp [annotations, h.name.pieces])
  | cons a notes =>
    obtain ⟨first, segments, hspell⟩ := spell_marker
      (h.annotations a (by simp [hnotes]))
    exact .inl (by simp [annotations, hspell])

theorem spell_constants_cons (f g : Written.Field) (fs : List Written.Field) :
    spell (constantsWords (f :: g :: fs)) =
      spell (constantWords f) ++ ⟨.comma, ",", none, []⟩ :: spell (constantsWords (g :: fs)) := by
  simp (disch := decide) only [constantsWords, List.map_cons, listed, List.intercalate_cons_cons,
    spell_append, spell_cons, pieces_sign, spell_nil, List.append_assoc]
  rfl

/-- The constants of an enum are read back. -/
theorem reads_constants {enum : String} {fs : List Written.Field}
    (h : ∀ f ∈ fs, IsConstant enum f) :
    Reads (constants enum) (spell (constantsWords fs)) (fun _ => True) (fs.flatMap fieldEvents)
      () := by
  refine .recurse fun n hn => ?_
  induction fs generalizing n with
  | nil =>
    cases n with
    | zero => exact absurd hn (Nat.not_lt_zero _)
    | succ n =>
      simp (disch := decide) only [constantsWords, List.map_nil, listed, List.intercalate_nil,
        List.nil_append, spell_cons, pieces_sign, spell_nil]
      show Reads (constantsBody enum _ ()) _ _ _ _
      rw [constantsBody_eq]
      refine .lookAhead (q := skip 1) (fun more ls _ hls => ?_) (.skip [_])
      rw [hls.kindAt]
      rfl
  | cons f fs ih =>
    have hf := h f List.mem_cons_self
    cases n with
    | zero => exact absurd hn (Nat.not_lt_zero _)
    | succ n =>
      show Reads (constantsBody enum _ ()) _ _ _ _
      rw [constantsBody_eq, List.flatMap_cons]
      obtain ⟨ps, hps, hkind, hend⟩ : ∃ ps, spell (constantsWords (f :: fs)) =
          spell (constantWords f) ++ ps ∧
          (kindOf ps 0 = some .comma ∨ kindOf ps 0 = some .semicolon) ∧
          Reads (constantEnd (unroll (constantsBody enum) n)) ps (fun _ => True)
            (fs.flatMap fieldEvents) () := by
        cases fs with
        | nil =>
          refine ⟨[⟨.semicolon, ";", none, []⟩], ?_, .inr rfl, ?_⟩
          · simp (disch := decide) only [constantsWords, List.map_cons, List.map_nil, listed,
              List.intercalate_singleton, spell_append, spell_cons, pieces_sign, spell_nil]
            rfl
          · refine .look (.accept_false .comma) (fun more _ => by simp) ?_
            refine .lookAhead (q := skip 1) (fun more ls _ hls => ?_) (.skip [_])
            rw [hls.kindAt]
            rfl
        | cons g gs =>
          refine ⟨_, spell_constants_cons f g gs, .inl rfl, ?_⟩
          rw [spell_constants_cons, List.length_append, List.length_cons] at hn
          exact .step (.accept_true rfl)
            (ih (fun f hf => h f (List.mem_cons_of_mem _ hf)) n (by omega))
      rw [hps]
      refine .lookAhead (q := constantThen enum (constantEnd (unroll (constantsBody enum) n)))
        (fun more ls _ hls => ?_) (reads_constantThen hf hkind hend)
      rw [List.append_assoc] at hls
      rw [hls.kindAt]
      rcases kindOf_constant hf (ps ++ more) with h | h <;> rw [h]

end JavaModel.Printing
