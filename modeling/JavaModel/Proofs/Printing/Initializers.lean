import JavaModel.Proofs.Printing.Declarators
import JavaModel.Proofs.Printing.TypeArguments

/-! Types in initializers. A generic type in a creation or in a reference to a constructor does not
divide the initializer that it stands in. Behind the type arguments of an array creation or of a
test for a type stands a sign that does not count as following type arguments, so that such an
initializer ends at the first comma among them. -/

namespace JavaModel.Printing

open Grammar Reader Lexer

/-! ### Uses of types -/

/-- The kinds of names, literals and brackets. -/
def operandKinds : List TokenKind :=
  [.identifier, .literalWord, .number, .string, .character, .leftParen, .rightParen, .leftBracket,
    .rightBracket, .leftBrace, .rightBrace]

/-- An expression of names, literals and balanced brackets, without white space around it. -/
structure IsOperand (text : String) : Prop extends Word.Clean (Word.of text) where
  last : ∀ c ∈ text.toList.getLast?, isSpace c = false
  kinds : ∀ t ∈ (lex text).tokens, t.kind ∈ operandKinds
  balanced : balanced insideExpression [] ((lex text).tokens.map Token.kind)

/-- A type of identifiers without brackets of its own, whose type arguments have a property. -/
structure IsClassType (P : List (Argument TypeExpr) → Prop) (t : TypeExpr) : Prop where
  name : ∀ s ∈ Name.segments t.name, IsToken .identifier s
  all : P t.args
  args : ∀ a ∈ t.args, ∀ u ∈ a.type?, IsTypeOf P u
  dims : t.dims = 0

theorem IsClassType.isTypeOf {P : List (Argument TypeExpr) → Prop} {t : TypeExpr}
    (h : IsClassType P t) : IsTypeOf P t := by
  cases t
  exact .named h.name h.all h.args

/-- The expressions that a type stands in beside an operand. -/
inductive TypeUse where
  | creation
  | arrayCreation
  | constructor
  | test

namespace TypeUse

/-- The text of a use. -/
def text (t a : String) : TypeUse → String
  | creation => "new " ++ t ++ "(" ++ a ++ ")"
  | arrayCreation => "new " ++ t ++ "[" ++ a ++ "]"
  | constructor => t ++ "::new"
  | test => a ++ " instanceof " ++ t ++ " && " ++ a

/-- The kinds of its tokens, given those of the type and of the operand. -/
def kinds (ts as : List TokenKind) : TypeUse → List TokenKind
  | creation => .reserved :: (ts ++ .leftParen :: (as ++ [.rightParen]))
  | arrayCreation => .reserved :: (ts ++ .leftBracket :: (as ++ [.rightBracket]))
  | constructor => ts ++ [.doubleColon, .reserved]
  | test => as ++ .reserved :: (ts ++ .ampersand :: .ampersand :: as)

/-- Whether the sign behind the type counts as following type arguments. -/
def follows : TypeUse → Bool
  | creation | constructor => true
  | arrayCreation | test => false

end TypeUse

/-! ### Their tokens -/

theorem isFullWord_new : IsFullWord "new" := isFullWord_of_all (by decide)

theorem isFullWord_instanceof : IsFullWord "instanceof" := isFullWord_of_all (by decide)

theorem ofWord_reserved : TokenKind.ofWord "new" = .reserved ∧
    TokenKind.ofWord "instanceof" = .reserved := by
  decide +kernel

/-- The use of a type reads as the tokens of the type and of the operand, and signs. -/
theorem lex_use {P : List (Argument TypeExpr) → Prop} {t : TypeExpr} (ht : IsTypeOf P t)
    {a : String} (ha : IsOperand a) (u : TypeUse) :
    (lex (u.text t.render a)).error = none ∧
      (lex (u.text t.render a)).tokens.map Token.kind =
        u.kinds (kinds (typeWords t)) ((lex a).tokens.map Token.kind) := by
  suffices h : ∃ fs, Yields (u.text t.render a).toList fs ∧
      fs.map Prod.fst = u.kinds (kinds (typeWords t)) ((lex a).tokens.map Token.kind) by
    obtain ⟨fs, hyields, hkinds⟩ := h
    obtain ⟨herror, hforms⟩ := hyields.lex
    exact ⟨herror, by rw [← map_fst_form, hforms, hkinds]⟩
  have htype := rendered_type ht
  have ha := ha.toClean
  have hnew : ∀ {c d : Char} {o p : TokenKind}, c = '(' ∨ c = '[' → d = ')' ∨ d = ']' →
      (∀ cs, lexeme c cs = (o, .whole 1)) → (∀ cs, lexeme d cs = (p, .whole 1)) →
      Yields ("new".toList ++ ' ' :: (t.render.toList ++ c :: (a.toList ++ [d])))
        ((.reserved, "new") :: (forms (typeWords t) ++
          (o, .ofList [c]) :: ((lex a).tokens.map form ++ [(p, .ofList [d])]))) := by
    intro c d o p hc hd ho hp
    have hopen : isSpace c = false ∧ isWordPart c = false := by
      rcases hc with rfl | rfl <;> decide
    have hclose : isSpace d = false ∧ d ∈ apartChars := by
      rcases hd with rfl | rfl <;> decide
    have hinside := ((yields_nil.sign hclose.1 hp).clean ha (apart_cons hclose.2 _)).sign
      hopen.1 ho
    have hall := ((htype _ _ (endsWord_cons hopen.2 _) hinside).space (c := ' ') rfl).word
      isFullWord_new (endsWord_cons (by decide) _)
    rwa [ofWord_reserved.1] at hall
  cases u with
  | creation =>
    have hall := hnew (.inl rfl) (.inl rfl) (fun _ => rfl) fun _ => rfl
    exact ⟨_, by simpa [TypeUse.text] using hall, by simp [TypeUse.kinds, form]⟩
  | arrayCreation =>
    have hall := hnew (.inr rfl) (.inr rfl) (fun _ => rfl) fun _ => rfl
    exact ⟨_, by simpa [TypeUse.text] using hall, by simp [TypeUse.kinds, form]⟩
  | constructor =>
    have hcolons := (yields_nil.word isFullWord_new endsWord_nil).token (c := ':')
      [':'] (by decide) (k := .doubleColon) rfl
    have hall := htype _ _ (endsWord_cons (by decide) _) hcolons
    exact ⟨_, by simpa [TypeUse.text] using hall, by simp [TypeUse.kinds, ofWord_reserved.1]⟩
  | test =>
    have hsigns := (((yields_nil.clean ha apart_nil).space (c := ' ') rfl).sign (c := '&')
      (by decide) fun _ => rfl).sign (c := '&') (by decide) fun _ => rfl
    have hword := ((htype _ _ (endsWord_cons (by decide) _) (hsigns.space (c := ' ') rfl)).space
      (c := ' ') rfl).word isFullWord_instanceof (endsWord_cons (by decide) _)
    have hall := (hword.space (c := ' ') rfl).clean ha (apart_cons (by decide) _)
    exact ⟨_, by simpa [TypeUse.text, Word.of] using hall,
      by simp [TypeUse.kinds, ofWord_reserved.2, Function.comp_def, form]⟩

/-! ### How an expression takes them -/

theorem crosses_operand {a : String} (ha : IsOperand a) {ls : List Lexeme}
    (hls : ls.map Lexeme.kind = (lex a).tokens.map Token.kind) (rest : List Lexeme) :
    Crosses ls rest := by
  refine crosses_balanced (by rw [hls]; exact ha.balanced) (fun l hl hless => ?_) rest
  have hmem := List.mem_map_of_mem (f := Lexeme.kind) hl
  rw [hls] at hmem
  obtain ⟨t, ht, hkind⟩ := List.mem_map.mp hmem
  have hoperand := ha.kinds t ht
  rw [hkind, hless] at hoperand
  exact absurd hoperand (by decide)

/-- A class type is crossed in front of what may follow its type arguments. -/
theorem crosses_type {P : List (Argument TypeExpr) → Prop} {t : TypeExpr} (h : IsClassType P t)
    {ls rest : List Lexeme} (hls : ls.map Lexeme.kind = kinds (typeWords t))
    (hfollows : followsTypeArguments (Lexeme.kindAt rest 0)) : Crosses ls rest := by
  obtain ⟨name, args, dims⟩ := t
  obtain ⟨hname, -, hargs, rfl⟩ := h
  have hsegments : ∀ s ∈ Name.segments name, ∃ k, TokenKind.isNaming k ∧ IsToken k s :=
    fun s hs => ⟨.identifier, .inl rfl, hname s hs⟩
  have hplain := plain_dotted hsegments
  have hnames : ∀ {ns : List Lexeme} (more : List Lexeme),
      ns.map Lexeme.kind = kinds (dotted name) → Crosses ns more := fun more hns =>
    crosses_angled (angled_of_plain fun k hk => (hplain k hk).1)
      (fun hmem => (hplain _ hmem).2 rfl) hns more
  rw [kinds_type, brackets, kinds_nil, List.append_nil] at hls
  rcases kinds_angled (args.map argumentWords) with ⟨-, hkinds⟩ | hkinds
  · rw [hkinds, List.append_nil] at hls
    exact hnames rest hls
  · rw [hkinds] at hls
    obtain ⟨ns, tail, rfl, hns, htail⟩ := List.map_eq_append_iff.mp hls
    obtain ⟨less, tail, rfl, hless, htail⟩ := List.map_eq_cons_iff.mp htail
    obtain ⟨inner, tail, rfl, hinner, htail⟩ := List.map_eq_append_iff.mp htail
    obtain ⟨close, rfl, hclose⟩ := List.map_eq_singleton_iff.mp htail
    -- The name ends with an identifier, so that the bracket behind it opens type arguments.
    obtain ⟨front, last, hends, rfl, -⟩ := kinds_dotted (Q := (· = .identifier))
      fun s hs => ⟨.identifier, rfl, hname s hs⟩
    have hbefore : ∀ before, behind before ns = some .identifier := by
      rw [hends] at hns
      obtain ⟨ms, tail, rfl, -, htail⟩ := List.map_eq_append_iff.mp hns
      obtain ⟨l, rfl, hl⟩ := List.map_eq_singleton_iff.mp htail
      intro before
      simp [behind, hl]
    refine crosses_arguments (hnames _ hns) hbefore hless ?_ hclose hfollows
    rw [hinner]
    exact angled_arguments fun a ha t ht => angled_type (hargs a ha t ht)

/-- The use of a type is crossed if what stands behind the type may follow type arguments, or if
there is no comma among these. -/
theorem crosses_use {P : List (Argument TypeExpr) → Prop} {t : TypeExpr} (ht : IsClassType P t)
    {a : String} (ha : IsOperand a) {u : TypeUse}
    (hu : u.follows ∨ .comma ∉ kinds (typeWords t)) {ls : List Lexeme}
    (hls : ls.map Lexeme.kind = u.kinds (kinds (typeWords t)) ((lex a).tokens.map Token.kind))
    (rest : List Lexeme) : Crosses ls rest := by
  have htype : ∀ {ts : List Lexeme} (more : List Lexeme),
      ts.map Lexeme.kind = kinds (typeWords t) →
      (u.follows → followsTypeArguments (Lexeme.kindAt more 0)) → Crosses ts more := by
    intro ts more hts hmore
    rcases hu with hu | hu
    · exact crosses_type ht hts (hmore hu)
    · exact crosses_angled (angled_type ht.isTypeOf) hu hts more
  have hsign : ∀ {l : Lexeme} {k : TokenKind} (more : List Lexeme), l.kind = k →
      k ∈ [TokenKind.reserved, .doubleColon, .ampersand] → Crosses [l] more := by
    intro l k more hl hk
    simp only [List.mem_cons, List.not_mem_nil, or_false] at hk
    rcases hk with rfl | rfl | rfl <;>
      exact crosses_other (by rw [hl]; rfl) (by rw [hl]; rfl) (by rw [hl]; decide)
        (by rw [hl]; rfl) more
  have hnew : ∀ {o c : TokenKind}, closing? o = some c →
      (u.follows → followsTypeArguments (some o)) →
      ls.map Lexeme.kind = .reserved :: (kinds (typeWords t) ++
        o :: ((lex a).tokens.map Token.kind ++ [c])) → Crosses ls rest := by
    intro o c hoc hmore hls
    obtain ⟨w, tail, rfl, hw, htail⟩ := List.map_eq_cons_iff.mp hls
    obtain ⟨ts, tail, rfl, hts, htail⟩ := List.map_eq_append_iff.mp htail
    obtain ⟨l, tail, rfl, rfl, hinside⟩ := List.map_eq_cons_iff.mp htail
    obtain ⟨inner, tail, rfl, hinner, hend⟩ := List.map_eq_append_iff.mp hinside
    obtain ⟨r, rfl, hr⟩ := List.map_eq_singleton_iff.mp hend
    exact (hsign _ hw (by decide)).cons ((htype (l :: (inner ++ [r]) ++ rest) hts hmore).append
      ((crosses_operand ha hinner _).enclose hoc hr))
  cases u with
  | creation => exact hnew rfl (fun _ => rfl) hls
  | arrayCreation => exact hnew rfl (by decide) hls
  | constructor =>
    obtain ⟨ts, tail, rfl, hts, htail⟩ := List.map_eq_append_iff.mp hls
    obtain ⟨l, tail, rfl, hl, htail⟩ := List.map_eq_cons_iff.mp htail
    obtain ⟨w, rfl, hw⟩ := List.map_eq_singleton_iff.mp htail
    exact (htype _ hts fun _ => by simp [Lexeme.kindAt, hl, followsTypeArguments]).append
      ((hsign _ hl (by decide)).cons (hsign _ hw (by decide)))
  | test =>
    obtain ⟨front, tail, rfl, hfront, htail⟩ := List.map_eq_append_iff.mp hls
    obtain ⟨w, tail, rfl, hw, htail⟩ := List.map_eq_cons_iff.mp htail
    obtain ⟨ts, tail, rfl, hts, htail⟩ := List.map_eq_append_iff.mp htail
    obtain ⟨l, tail, rfl, hl, htail⟩ := List.map_eq_cons_iff.mp htail
    obtain ⟨r, back, rfl, hr, hback⟩ := List.map_eq_cons_iff.mp htail
    exact (crosses_operand ha hfront _).append ((hsign _ hw (by decide)).cons
      ((htype _ hts fun h => by cases h).append ((hsign _ hl (by decide)).cons
        ((hsign _ hr (by decide)).cons (crosses_operand ha hback rest)))))

/-! ### Uses as words -/

theorem first_dotted {name : String} (h : ∀ s ∈ Name.segments name, IsToken .identifier s) :
    ∃ c, name.toList.head? = some c ∧ isSpace c = false := by
  cases hsplit : Text.splitAt '.' name.toList with
  | nil => exact absurd hsplit (Text.splitAt_ne_nil '.' name.toList)
  | cons first more =>
    have htoken : IsToken .identifier (.ofList first) := h _ (by simp [Name.segments, hsplit])
    obtain ⟨c, cs, hfirst, hc, -⟩ := (htoken.clean rfl []).begins
    rw [String.toList_ofList] at hfirst
    refine ⟨c, ?_, hc⟩
    rw [← flatten_splitAt '.' _ _ _ hsplit, hfirst]
    rfl

/-- The text of a use begins and ends with a token. -/
theorem ends_use {P : List (Argument TypeExpr) → Prop} {t : TypeExpr} (ht : IsClassType P t)
    {a : String} (ha : IsOperand a) (u : TypeUse) :
    (∃ c, (u.text t.render a).toList.head? = some c ∧ isSpace c = false) ∧
      ∃ d, (u.text t.render a).toList.getLast? = some d ∧ isSpace d = false := by
  cases u with
  | creation =>
    exact ⟨⟨'n', by simp [TypeUse.text], rfl⟩,
      ⟨')', by simp [TypeUse.text, List.getLast?_cons], rfl⟩⟩
  | arrayCreation =>
    exact ⟨⟨'n', by simp [TypeUse.text], rfl⟩,
      ⟨']', by simp [TypeUse.text, List.getLast?_cons], rfl⟩⟩
  | constructor =>
    obtain ⟨c, hfirst, hc⟩ := first_dotted ht.name
    obtain ⟨name, args, dims⟩ := t
    exact ⟨⟨c, by simp_all [TypeUse.text, TypeExpr.render], hc⟩,
      ⟨'w', by simp [TypeUse.text], rfl⟩⟩
  | test =>
    obtain ⟨c, cs, hfirst, hc, -⟩ := ha.begins
    have hfirst : a.toList = c :: cs := hfirst
    obtain ⟨d, hd⟩ := Option.isSome_iff_exists.mp
      (show a.toList.getLast?.isSome by simp [hfirst])
    exact ⟨⟨c, by simp [TypeUse.text, hfirst], hc⟩,
      ⟨d, by simp [TypeUse.text, List.getLast?_cons, hd], ha.last d hd⟩⟩

theorem TypeUse.mem_kinds {k : TokenKind} {ts as : List TokenKind} {u : TypeUse}
    (h : k ∈ u.kinds ts as) : k ∈ ts ∨ k ∈ as ∨ k ∈ [TokenKind.reserved, .leftParen, .rightParen,
      .leftBracket, .rightBracket, .doubleColon, .ampersand] := by
  cases u <;> simp only [TypeUse.kinds, List.mem_cons, List.mem_append, List.not_mem_nil,
    or_false] at h ⊢ <;> grind

/-- The use of a type is an initializer that nothing divides, if what stands behind the type may
follow type arguments, or if there is no comma among these. -/
theorem isUndivided_use {P : List (Argument TypeExpr) → Prop} {t : TypeExpr}
    (ht : IsClassType P t) {a : String} (ha : IsOperand a) {u : TypeUse}
    (hu : u.follows ∨ .comma ∉ kinds (typeWords t)) : IsUndivided (u.text t.render a) := by
  obtain ⟨herror, hkinds⟩ := lex_use ht.isTypeOf ha u
  obtain ⟨⟨c, hfirst, hc⟩, d, hlast, hd⟩ := ends_use ht ha u
  refine ⟨⟨herror, fun tok htok => ?_, ?_, ?_⟩, ?_, fun ls rest hls =>
    crosses_use ht ha hu (hls.trans hkinds) rest⟩
  · have hmem := List.mem_map_of_mem (f := Token.kind) htok
    rw [Word.of, hkinds] at hmem
    rcases TypeUse.mem_kinds hmem with htype | hoperand | hsign
    · exact angled_not_trivia (angled_type ht.isTypeOf) _ htype
    · obtain ⟨tok', htok', hkind⟩ := List.mem_map.mp hoperand
      rw [← hkind]
      exact ha.plain tok' htok'
    · revert hsign
      generalize tok.kind = k
      revert k
      decide
  · intro hnil
    rw [show (u.text t.render a).toList = [] from hnil] at hfirst
    cases hfirst
  · intro c' hc'
    cases hfirst.symm.trans hc'
    exact hc
  · intro d' hd'
    cases hlast.symm.trans hd'
    exact hd

/-! ### The field and its neighbour -/

/-- A field whose initializer uses a type, and the field declared behind it, are told as two fields,
the first with its initializer whole: for a creation and for a reference to a constructor whatever
the type arguments are, for an array creation and for a test where no two of them stand side by
side. -/
theorem parse_typeUse {u : TypeUse} {t : TypeExpr}
    (ht : IsClassType (fun args => u.follows ∨ AtMostOne args) t) {a : String} (ha : IsOperand a) :
    parse (twoFields (u.text t.render a)) =
      ⟨.beginSource :: (fieldsClassEvents (u.text t.render a) ++ [.endSource]), none⟩ := by
  refine parse_twoFields (isUndivided_use ht ha ?_)
  cases hfollows : u.follows with
  | true => exact .inl rfl
  | false =>
    have hone : IsTypeOf AtMostOne t := by simpa [hfollows] using ht.isTypeOf
    exact .inr (comma_not_mem_type hone)

/-- A type with two wildcards. -/
def wildcards : TypeExpr := ⟨"Map", [.unbounded, .unbounded], 0⟩

theorem isClassType_wildcards {P : List (Argument TypeExpr) → Prop}
    (h : P [.unbounded, .unbounded]) : IsClassType P wildcards :=
  ⟨by decide +kernel, h, by simp [wildcards, Argument.type?], rfl⟩

theorem isOperand_one : IsOperand "1" where
  toClean := by decide +kernel
  last := by simp [isSpace]
  kinds := by decide +kernel
  balanced := by decide +kernel

/-- The creation of an object with two wildcards is the initializer of the first field. -/
theorem parse_typeUse_wildcards :
    parse "class C \x7b Object f = new Map<?, ?>(1), g; \x7d" =
      ⟨.beginSource :: (fieldsClassEvents "new Map<?, ?>(1)" ++ [.endSource]), none⟩ :=
  @parse_typeUse .creation wildcards (isClassType_wildcards (.inl rfl)) "1" isOperand_one

/-- Two type arguments divide an array creation and a test. -/
theorem divided_wildcards :
    IsClassType (fun _ => True) wildcards ∧ IsOperand "1" ∧
      (parse (twoFields (TypeUse.arrayCreation.text wildcards.render "1"))).error ≠ none ∧
      (parse (twoFields (TypeUse.test.text wildcards.render "1"))).error ≠ none := by
  refine ⟨isClassType_wildcards trivial, isOperand_one, ?_, ?_⟩ <;> decide +kernel

end JavaModel.Printing
