import JavaModel.Proofs.Grammar.Members
import JavaModel.Proofs.Grammar.Parts
import JavaModel.Proofs.Grammar.Places
import JavaModel.Proofs.Grammar.TypeSyntax

/-! Fields declared together. Each declarator of a declaration is a field of its own: the name, the
brackets and the initializer are its own, and of what stands before the first name each field has
all. An initializer may compare, so long as nothing in the declaration closes what a comparison
seems to open. -/

namespace JavaModel.Grammar

open Reader Lexeme Printing

variable {l stop : Lexeme} {front inner ls rest : List Lexeme}

/-! ### Comparisons -/

/-- Lexemes that no type arguments reach the end of: something that stands in none comes before
what would close them. -/
def Endless (ls : List Lexeme) : Prop := ∀ depth, angleLength depth ls = none

theorem endless_stop (h : inTypeArguments l.kind = false) (ls : List Lexeme) :
    Endless (l :: ls) := fun depth => by
  unfold angleLength
  simp [h]

theorem Endless.cons (h : Endless ls) (hl : l.kind ≠ .greater) : Endless (l :: ls) := by
  intro depth
  unfold angleLength
  simp [hl, h _]

theorem Endless.append (h : Endless rest) (hfront : ∀ l ∈ front, l.kind ≠ .greater) :
    Endless (front ++ rest) := by
  induction front with
  | nil => exact h
  | cons l front ih =>
    obtain ⟨hl, hmore⟩ := List.forall_mem_cons.mp hfront
    exact (ih hmore).cons hl

/-- In front of such lexemes, every opening angle bracket compares. -/
theorem Endless.comparing (h : Endless rest) (hinner : ∀ l ∈ inner, l.kind ≠ .greater) :
    Comparing inner rest := by
  intro l more hsuffix _ before
  have hmore : Endless (more ++ rest) :=
    h.append fun x hx => hinner x (hsuffix.subset (List.mem_cons_of_mem l hx))
  unfold typeArgumentsLength
  split
  · exact hmore 0
  · rfl

/-! ### Modifiers and annotations -/

/-- Lexemes of modifiers that are keywords and of annotations, in any order. -/
inductive Decorated : Decorations → List Lexeme → Prop where
  | nil : Decorated ⟨[], []⟩ []
  | modifier {d : Decorations} {m : Modifier} {l : Lexeme} {ls : List Lexeme}
      (hl : l.kind = .modifier m) (more : Decorated d ls) :
      Decorated { d with modifiers := m :: d.modifiers } (l :: ls)
  | note {d : Decorations} {a : AnnotationUse String} {front ls : List Lexeme}
      (h : Annotates a front) (more : Decorated d ls) :
      Decorated { d with annotations := a :: d.annotations } (front ++ ls)

/-- What modifiers and annotations end before. -/
structure EndsDecorations (rest : List Lexeme) : Prop extends EndsAnnotation rest where
  note : startsAnnotationUse rest = false
  modifier : modifierAt? rest = none

theorem decorations_eq (ls : List Lexeme) :
    decorations ls = decorationsBody (fun _ => decorations) () ls :=
  Loop.decorations.advances.recurse_eq () ls

theorem Decorated.ends {d : Decorations} (h : Decorated d front) (hrest : EndsAnnotation rest) :
    EndsAnnotation (front ++ rest) := by
  cases h with
  | nil => exact hrest
  | modifier hl _ => exact endsAnnotation_cons (by simp [hl]) (by simp [hl]) _
  | note h _ =>
    obtain ⟨sign, first, more, rfl, hsign, -⟩ := h.begins
    exact endsAnnotation_cons (by simp [hsign]) (by simp [hsign]) _

theorem Decorated.reads {d : Decorations} (h : Decorated d front) (hrest : EndsDecorations rest) :
    decorations (front ++ rest) = ([], .ok (d, rest)) := by
  induction h with
  | nil =>
    rw [List.nil_append, decorations_eq]
    unfold decorationsBody
    rw [bind_quiet rfl, if_neg (by simp [hrest.note]), hrest.modifier]
    rfl
  | @modifier d m l ls hl _ ih =>
    have hnote : startsAnnotationUse (l :: (ls ++ rest)) = false := by
      simp [startsAnnotationUse, hl]
    have hmodifier : modifierAt? (l :: (ls ++ rest)) = some (m, 1) := by simp [modifierAt?, hl]
    rw [List.cons_append, decorations_eq]
    unfold decorationsBody
    rw [bind_quiet rfl, if_neg (by simp [hnote]), hmodifier]
    dsimp only
    rw [bind_quiet rfl, List.drop_succ_cons, List.drop_zero, bind_quiet ih]
    rfl
  | @note d a front ls h more ih =>
    rw [List.append_assoc, decorations_eq]
    unfold decorationsBody
    rw [bind_quiet rfl, if_pos (h.starts _),
      bind_quiet (h.reads (more.ends hrest.toEndsAnnotation)), bind_quiet ih]
    rfl

/-! ### Declarators -/

/-- What a declarator says: the name, the number of pairs of brackets behind it, and the text of the
initializer. -/
structure Declarator where
  name : String
  dims : Nat
  initializer : Option String

/-- The field that a declarator declares, given what stands before the first name. -/
def Declarator.field (o : Opening) (t : TypeExpr) (d : Declarator) : Written.Field :=
  { name := d.name, modifiers := o.decorations.modifiers, annotations := o.decorations.annotations,
    type := t.addDims d.dims, initializer := d.initializer, isEnumConstant := false,
    line := o.line }

/-- Lexemes of an initializer, or none of them: an expression whose brackets are balanced, with
commas and semicolons inside brackets only and no closing angle bracket. -/
inductive Initializes : Option String → List Lexeme → Prop where
  | absent : Initializes none []
  | given {sign : Lexeme} {e : List Lexeme} (hsign : sign.kind = .equals) (hne : e ≠ [])
      (hbalanced : balanced insideExpression [] (e.map Lexeme.kind))
      (hgreater : ∀ l ∈ e, l.kind ≠ .greater) : Initializes (some (bareText e)) (sign :: e)

/-- Lexemes of declarators with a comma between each two and a semicolon behind the last. -/
inductive Declares : List Declarator → List Lexeme → Prop where
  | last {x semicolon : Lexeme} {pairs value : List Lexeme} {n : Nat} {initializer : Option String}
      (hx : x.kind = .identifier) (hpairs : Pairs n pairs) (hvalue : Initializes initializer value)
      (hsemicolon : semicolon.kind = .semicolon) :
      Declares [⟨x.text, n, initializer⟩] (x :: (pairs ++ (value ++ [semicolon])))
  | next {x comma : Lexeme} {pairs value more : List Lexeme} {n : Nat}
      {initializer : Option String} {ds : List Declarator} (hx : x.kind = .identifier)
      (hpairs : Pairs n pairs) (hvalue : Initializes initializer value)
      (hcomma : comma.kind = .comma) (hmore : Declares ds more) :
      Declares (⟨x.text, n, initializer⟩ :: ds) (x :: (pairs ++ (value ++ comma :: more)))

theorem Pairs.not_greater {n : Nat} {pairs : List Lexeme} (h : Pairs n pairs) :
    ∀ l ∈ pairs, l.kind ≠ .greater := by
  induction h with
  | nil => exact List.forall_mem_nil _
  | cons hl hr _ ih =>
    exact List.forall_mem_cons.mpr ⟨by simp [hl], List.forall_mem_cons.mpr ⟨by simp [hr], ih⟩⟩

theorem Initializes.not_greater {initializer : Option String} {value : List Lexeme}
    (h : Initializes initializer value) : ∀ l ∈ value, l.kind ≠ .greater := by
  cases h with
  | absent => exact List.forall_mem_nil _
  | given hsign _ _ hgreater => exact List.forall_mem_cons.mpr ⟨by simp [hsign], hgreater⟩

theorem Declares.endless {ds : List Declarator} (h : Declares ds ls) (rest : List Lexeme) :
    Endless (ls ++ rest) := by
  induction h with
  | @last x semicolon _ _ _ _ hx hpairs hvalue hsemicolon =>
    have hstop : Endless (semicolon :: rest) := endless_stop (by rw [hsemicolon]; rfl) rest
    have hname : x.kind ≠ .greater := by simp [hx]
    simpa using ((hstop.append hvalue.not_greater).append hpairs.not_greater).cons hname
  | @next x comma _ _ _ _ _ _ hx hpairs hvalue hcomma _ ih =>
    have hstop : comma.kind ≠ .greater := by simp [hcomma]
    have hname : x.kind ≠ .greater := by simp [hx]
    simpa using (((ih.cons hstop).append hvalue.not_greater).append hpairs.not_greater).cons hname

/-- Declarators begin with a name, behind which stand brackets, an initializer or the end. -/
theorem Declares.begins {ds : List Declarator} (h : Declares ds ls) :
    ∃ x more, ls = x :: more ∧ x.kind = .identifier ∧ ∀ rest, kindAt (more ++ rest) 0 ∈
      [some .leftBracket, some .equals, some .comma, some .semicolon] := by
  cases h with
  | last hx hpairs hvalue hend | next hx hpairs hvalue hend =>
    refine ⟨_, _, rfl, hx, fun rest => ?_⟩
    cases hpairs with
    | cons hl _ _ => simp [hl]
    | nil =>
      cases hvalue with
      | given hsign => simp [hsign]
      | absent => simp [hend]

/-- An initializer is read up to the comma or the semicolon behind it. -/
theorem Initializes.reads {initializer : Option String} {value : List Lexeme}
    (h : Initializes initializer value) (hstop : stop.kind = .comma ∨ stop.kind = .semicolon)
    (hrest : Endless (stop :: rest)) :
    (do if ← accept .equals then pure (some (← expression)) else pure none : Reader _)
      (value ++ stop :: rest) = ([], .ok (initializer, stop :: rest)) := by
  cases h with
  | absent =>
    have hother : kindAt (stop :: rest) 0 ≠ some .equals := by
      rcases hstop with h | h <;> simp [h]
    rw [List.nil_append, bind_quiet (accept_other hother)]
    rfl
  | given hsign hne hbalanced hgreater =>
    have hcrosses := crosses_comparing hbalanced (hrest.comparing hgreater)
    rw [List.cons_append, bind_quiet (accept_next hsign), if_pos rfl,
      bind_quiet (expression_eq hcrosses hne hstop)]
    rfl

theorem declarators_eq (o : Opening) (t : TypeExpr) (name : String) (ls : List Lexeme) :
    declarators o t name ls = declaratorsBody o t (declarators o t) name ls :=
  (Loop.declarators o t).advances.recurse_eq name ls

/-- What follows the initializer of a declarator. -/
def declaratorEnd (self : String → Reader Unit) : Reader Unit := do
  if ← accept .comma then self (← identifier .fieldName)
  else
    let _ ← expect .semicolon .fieldEnd
    pure ()

/-- One declarator tells its field. -/
theorem declaratorsBody_tells {o : Opening} {t : TypeExpr} {self : String → Reader Unit}
    {name : String} {pairs value : List Lexeme} {n : Nat} {initializer : Option String}
    (hpairs : Pairs n pairs) (hvalue : Initializes initializer value)
    (hstop : stop.kind = .comma ∨ stop.kind = .semicolon) (hrest : Endless (stop :: rest)) :
    declaratorsBody o t self name (pairs ++ (value ++ stop :: rest)) =
      (Event.ofField o.doc (Declarator.field o t ⟨name, n, initializer⟩) ++
        (declaratorEnd self (stop :: rest)).1, (declaratorEnd self (stop :: rest)).2) := by
  have hends : EndsPairs (value ++ stop :: rest) := by
    cases hvalue with
    | absent => rcases hstop with h | h <;> simp [EndsPairs, h]
    | given hsign => simp [EndsPairs, hsign]
  unfold declaratorsBody
  rw [bind_quiet (hpairs.reads hends), bind_quiet (hvalue.reads hstop hrest)]
  exact tell_bind (tellField_eq _ _ _)

/-- What declarators tell. -/
def declaratorEvents (o : Opening) (t : TypeExpr) (ds : List Declarator) : List Event :=
  ds.flatMap fun d => Event.ofField o.doc (d.field o t)

/-- Declarators are read from behind the first name on, each told as a field. -/
theorem Declares.reads {ds : List Declarator} (h : Declares ds ls) {x : Lexeme}
    {more : List Lexeme} (hls : ls = x :: more) (o : Opening) (t : TypeExpr)
    (rest : List Lexeme) :
    declarators o t x.text (more ++ rest) = (declaratorEvents o t ds, .ok ((), rest)) := by
  induction h generalizing x more with
  | @last _ semicolon pairs value n initializer _ hpairs hvalue hsemicolon =>
    cases hls
    have hrest : Endless (semicolon :: rest) := endless_stop (by rw [hsemicolon]; rfl) rest
    have hend : declaratorEnd (declarators o t) (semicolon :: rest) = ([], .ok ((), rest)) := by
      unfold declaratorEnd
      rw [bind_quiet (accept_other (by simp [hsemicolon])), if_neg Bool.false_ne_true,
        bind_quiet (expect_next hsemicolon _)]
      rfl
    rw [List.append_assoc, List.append_assoc, List.singleton_append, declarators_eq,
      declaratorsBody_tells hpairs hvalue (.inr hsemicolon) hrest, hend]
    simp [declaratorEvents]
  | @next _ comma pairs value behind n initializer ds _ hpairs hvalue hcomma hmore ih =>
    cases hls
    have hrest : Endless (comma :: (behind ++ rest)) :=
      (hmore.endless rest).cons (by simp [hcomma])
    have hend : declaratorEnd (declarators o t) (comma :: (behind ++ rest)) =
        (declaratorEvents o t ds, .ok ((), rest)) := by
      obtain ⟨y, tail, rfl, hy, -⟩ := hmore.begins
      unfold declaratorEnd
      rw [bind_quiet (accept_next hcomma), if_pos rfl, List.cons_append,
        bind_quiet (identifier_next hy _), ih rfl]
    rw [List.append_assoc, List.append_assoc, List.cons_append, declarators_eq,
      declaratorsBody_tells hpairs hvalue (.inl hcomma) hrest, hend]
    simp [declaratorEvents]

/-! ### Fields as members -/

/-- What stands behind the modifiers of a field: a type, the second lexeme of which may be missing,
and a name that no parameters follow. -/
structure BeginsField (ls : List Lexeme) : Prop where
  first : kindAt ls 0 = some .primitive ∨ kindAt ls 0 = some .identifier
  second : kindAt ls 1 ∈ [some .dot, some .less, some .leftBracket, some .identifier]
  named : kindAt ls 1 = some .identifier → isWordAt ls 0 "sealed" = false ∧
    kindAt ls 2 ∈ [some .leftBracket, some .equals, some .comma, some .semicolon]

/-- Behind a name stand arguments or a further segment, if anything. -/
theorem Derives.begins_behind {name full : String} {args : List (Argument TypeExpr)}
    (h : Derives (.behind name full args) ls) :
    ls = [] ∨ kindAt ls 0 ∈ [some .dot, some .less] := by
  cases h with
  | last harguments =>
    cases harguments with
    | absent => exact .inl rfl
    | diamond ho | angled ho => exact .inr (by simp [ho])
  | segment harguments hd =>
    cases harguments with
    | absent => exact .inr (by simp [hd])
    | diamond ho | angled ho => exact .inr (by simp [ho])

/-- A type without annotations in front begins with a word. -/
theorem Derives.begins {t : TypeExpr} (h : Derives (.type t) ls)
    (hplain : kindAt ls 0 ≠ some .atSign) : ∃ first more, ls = first :: more ∧
      (first.kind = .primitive ∨ first.kind = .identifier) ∧
      (more = [] ∨ kindAt more 0 ∈ [some .dot, some .less, some .leftBracket]) := by
  have hnone : ∀ {notes : List Lexeme}, Annotations notes → ∀ {l more}, ls = notes ++ l :: more →
      notes = [] := by
    rintro notes (_ | ⟨hnote, -⟩) l more rfl
    · rfl
    · obtain ⟨sign, first, tail, rfl, hsign, -⟩ := hnote.begins
      exact absurd (congrArg some hsign) hplain
  have hbrackets : ∀ {n pairs}, Pairs n pairs →
      pairs = [] ∨ kindAt pairs 0 = some .leftBracket := by
    rintro n pairs (_ | ⟨hl, -⟩)
    · exact .inl rfl
    · exact .inr (by simp [hl])
  cases h with
  | primitive hnotes hp hpairs =>
    rw [hnone hnotes rfl]
    exact ⟨_, _, rfl, .inl hp, (hbrackets hpairs).imp_right fun h => by simp [h]⟩
  | @named notes more pairs first _ _ _ hnotes hfirst hmore hpairs =>
    rw [hnone hnotes rfl]
    refine ⟨first, _, rfl, .inr hfirst, ?_⟩
    rcases hmore.begins_behind with rfl | hkind
    · exact (hbrackets hpairs).imp_right fun h => by simp [h]
    · right
      cases more with
      | nil => simp [kindAt] at hkind
      | cons l more => simpa using Or.imp_right Or.inl (by simpa using hkind)

theorem beginsField {t : TypeExpr} {tls : List Lexeme} {ds : List Declarator}
    (ht : Derives (.type t) tls) (hplain : kindAt tls 0 ≠ some .atSign)
    (hsealed : tls.map Lexeme.text ≠ ["sealed"]) (hds : Declares ds ls) (rest : List Lexeme) :
    BeginsField (tls ++ (ls ++ rest)) := by
  obtain ⟨x, more, rfl, hx, hmore⟩ := hds.begins
  obtain ⟨first, tail, rfl, hfirst, htail⟩ := ht.begins hplain
  have hfirst : kindAt (first :: tail ++ (x :: more ++ rest)) 0 = some .primitive ∨
      kindAt (first :: tail ++ (x :: more ++ rest)) 0 = some .identifier := by simpa using hfirst
  rcases htail with rfl | htail
  · have hword : first.text ≠ "sealed" := by simpa using hsealed
    exact ⟨hfirst, by simp [hx], fun _ => ⟨by simp [isWordAt, hword], hmore rest⟩⟩
  · cases tail with
    | nil => simp [kindAt] at htail
    | cons l tail =>
      simp only [kindAt_cons_zero] at htail
      refine ⟨hfirst, ?_, fun hkind => ?_⟩
      · simp only [List.cons_append, kindAt_cons_succ, kindAt_cons_zero]
        grind
      · simp only [List.cons_append, kindAt_cons_succ, kindAt_cons_zero] at hkind
        simp [hkind] at htail

namespace BeginsField

variable (h : BeginsField ls)

include h

theorem kind_ne {k : TokenKind} (hprimitive : k ≠ .primitive) (hidentifier : k ≠ .identifier) :
    kindAt ls 0 ≠ some k := by
  rcases h.first with hkind | hkind <;> simp [hkind, hprimitive.symm, hidentifier.symm]

theorem second_ne {k : TokenKind} (hk : k ∉ [.dot, .less, .leftBracket, .identifier]) :
    kindAt ls 1 ≠ some k := by
  intro hkind
  have hsecond := h.second
  rw [hkind] at hsecond
  simp at hsecond hk
  grind

theorem endsDecorations : EndsDecorations ls where
  segment := h.kind_ne (by decide) (by decide)
  args := h.kind_ne (by decide) (by decide)
  note := by simp [startsAnnotationUse, h.kind_ne (k := .atSign) (by decide) (by decide)]
  modifier := by
    have hsealed : (isWordAt ls 0 "sealed" && followsSealed (kindAt ls 1)) = false := by
      have hsecond := h.second
      simp only [List.mem_cons, List.not_mem_nil, or_false] at hsecond
      rcases hsecond with hkind | hkind | hkind | hkind
      iterate 3 simp [hkind, followsSealed, TokenKind.isModifier]
      simp [(h.named hkind).1]
    have hminus : kindAt ls 1 ≠ some .minus := h.second_ne (by decide)
    unfold modifierAt?
    rcases h.first with hkind | hkind <;> simp [hkind, hsealed, hminus]

theorem declarationKind? : Grammar.declarationKind? ls = none := by
  have hrecord : (isWordAt ls 0 "record" && kindAt ls 1 = some .identifier &&
      (kindAt ls 2 = some .leftParen || kindAt ls 2 = some .less)) = false := by
    by_cases hkind : kindAt ls 1 = some .identifier
    · have hthird := (h.named hkind).2
      simp only [List.mem_cons, List.not_mem_nil, or_false] at hthird
      rcases hthird with hkind' | hkind' | hkind' | hkind' <;> simp [hkind']
    · simp [hkind]
  unfold Grammar.declarationKind?
  rcases h.first with hkind | hkind <;> simp [hkind, hrecord]

end BeginsField

/-- The comment and the line of a member are those of its first lexeme. -/
theorem Decorated.opens {d : Decorations} {first : Lexeme} (h : Decorated d front)
    (hrest : EndsDecorations rest) (hfirst : (front ++ rest).head? = some first) :
    opening (front ++ rest) = ([], .ok (⟨d, first.doc, first.line⟩, rest)) := by
  have hdoc : docHere (front ++ rest) = ([], .ok (first.doc, front ++ rest)) := by
    simp [docHere, hfirst]
  have hline : lineHere (front ++ rest) = ([], .ok (first.line, front ++ rest)) := by
    simp [lineHere, hfirst]
  unfold opening
  rw [bind_quiet hdoc, bind_quiet hline, bind_quiet (h.reads hrest)]
  rfl

/-- Behind the modifiers, the type and the declarators are read. -/
theorem memberRest_fields {t : TypeExpr} {tls : List Lexeme} {ds : List Declarator}
    (hbegins : BeginsField (tls ++ (ls ++ rest))) (ht : Derives (.type t) tls)
    (hds : Declares ds ls) (owner : ClassKind) (className : String) (o : Opening) :
    memberRest owner className o (tls ++ (ls ++ rest)) =
      (declaratorEvents o t ds, .ok ((), rest)) := by
  obtain ⟨x, more, rfl, hx, hmore⟩ := hds.begins
  rw [List.cons_append] at hbegins ⊢
  have hparen : kindAt (tls ++ x :: (more ++ rest)) 1 ≠ some .leftParen :=
    hbegins.second_ne (by decide)
  have hbrace : kindAt (tls ++ x :: (more ++ rest)) 1 ≠ some .leftBrace :=
    hbegins.second_ne (by decide)
  have hnone : typeParameters (tls ++ x :: (more ++ rest)) =
      ([], .ok ([], tls ++ x :: (more ++ rest))) := by
    unfold typeParameters
    rw [bind_quiet (accept_other (hbegins.kind_ne (by decide) (by decide)))]
    rfl
  have htype : type (tls ++ x :: (more ++ rest)) = ([], .ok (t, x :: (more ++ rest))) := by
    refine type_iff.mpr ⟨rfl, tls, rfl, ht, fun _ => by simp [hx], fun _ => ?_, ?_⟩
    · simp [startsTypeSegment, hx]
    · simp [EndsPairs, hx]
  have hname : kindAt (more ++ rest) 0 ≠ some .leftParen := by
    intro hkind
    simpa [hkind] using hmore rest
  unfold memberRest memberTail
  rw [bind_quiet hnone, bind_quiet rfl, if_neg (by simp [hparen]), if_neg (by simp [hbrace]),
    bind_quiet htype, bind_quiet (identifier_next hx _), bind_quiet rfl, if_neg (by simp [hname])]
  exact hds.reads rfl o t rest

/-- The kinds that a field or what stands before its type begins with. -/
def beginsMember : TokenKind → Bool
  | .modifier _ | .atSign | .primitive | .identifier => true
  | _ => false

/-- No block stands where modifiers and annotations are followed by a type. -/
theorem Decorated.begins {d : Decorations} (h : Decorated d front)
    (hrest : ∃ k, kindAt rest 0 = some k ∧ beginsMember k ∧ k ≠ .modifier .isStatic) :
    ∃ k, kindAt (front ++ rest) 0 = some k ∧ beginsMember k ∧
      (k = .modifier .isStatic → kindAt (front ++ rest) 1 ≠ some .leftBrace) := by
  induction h with
  | nil =>
    obtain ⟨k, hkind, hk, hstatic⟩ := hrest
    exact ⟨k, hkind, hk, fun h => absurd h hstatic⟩
  | @modifier d m l ls hl _ ih =>
    obtain ⟨k, hkind, hk, -⟩ := ih
    refine ⟨.modifier m, by simp [hl], rfl, fun _ hbrace => ?_⟩
    rw [List.cons_append, kindAt_cons_succ, hkind] at hbrace
    cases hbrace
    cases hk
  | note h =>
    obtain ⟨sign, first, more, rfl, hsign, -⟩ := h.begins
    exact ⟨.atSign, by simp [hsign], rfl, fun h => by cases h⟩

/-- What is read as a member is read as one in the body of a class. -/
theorem membersBody_member {readClass : ReadClass} {owner : ClassKind} {className : String}
    {k : TokenKind} {told : List Event} (hkind : kindAt ls 0 = some k) (hk : beginsMember k)
    (hstatic : k = .modifier .isStatic → kindAt ls 1 ≠ some .leftBrace)
    (h : member readClass owner className ls = (told, .ok ((), rest)))
    (self : Unit → Reader Unit) : membersBody readClass owner className self () ls =
      (told ++ (self () rest).1, (self () rest).2) := by
  have hthen := bind_run (f := fun _ => self ()) h
  have hblock : ¬ (k = .modifier .isStatic && kindAt ls 1 = some .leftBrace) = true := by
    simpa using hstatic
  rw [membersBody_eq, bind_quiet rfl, hkind]
  cases k <;> first | exact (congrFun (if_neg hblock) _).trans hthen | cases hk

/-- Declarators are told as fields, one for each of them and in order. The name, the brackets and
the initializer are those of the declarator; the modifiers and the annotations, the line and the
comment are the same for all, and so is the type without the brackets behind the name. Annotations
in front of the type are annotations of the fields, and the word `sealed` in place of a type would
be a modifier. -/
theorem member_fields (readClass : ReadClass) (owner : ClassKind) (className : String)
    {d : Decorations} {front tls ls : List Lexeme} {t : TypeExpr} {told : List Event}
    {ds : List Declarator} {first : Lexeme} (hfront : Decorated d front)
    (ht : type tls = (told, .ok (t, []))) (hplain : kindAt tls 0 ≠ some .atSign)
    (hsealed : tls.map Lexeme.text ≠ ["sealed"]) (hds : Declares ds ls)
    (hfirst : (front ++ tls).head? = some first) (rest : List Lexeme) :
    let events := declaratorEvents ⟨d, first.doc, first.line⟩ t ds
    member readClass owner className (front ++ tls ++ ls ++ rest) = (events, .ok ((), rest)) ∧
      ∀ self, membersBody readClass owner className self () (front ++ tls ++ ls ++ rest) =
        (events ++ (self () rest).1, (self () rest).2) := by
  intro events
  obtain ⟨-, tls', hall, hderives, -⟩ := type_iff.mp ht
  obtain rfl : tls = tls' := by rw [hall, List.append_nil]
  have hassoc : front ++ tls ++ ls ++ rest = front ++ (tls ++ (ls ++ rest)) := by simp
  have hbegins := beginsField hderives hplain hsealed hds rest
  have hhead : (front ++ (tls ++ (ls ++ rest))).head? = some first := by
    rw [← List.append_assoc, List.head?_append, hfirst]
    rfl
  have hmember : member readClass owner className (front ++ (tls ++ (ls ++ rest))) =
      (events, .ok ((), rest)) := by
    rw [member_eq, bind_quiet (hfront.opens hbegins.endsDecorations hhead), bind_quiet rfl,
      hbegins.declarationKind?]
    exact memberRest_fields hbegins hderives hds owner className _
  have hnext : ∃ k, kindAt (tls ++ (ls ++ rest)) 0 = some k ∧ beginsMember k ∧
      k ≠ .modifier .isStatic := by
    rcases hbegins.first with hkind | hkind <;> exact ⟨_, hkind, rfl, by simp⟩
  obtain ⟨k, hkind, hk, hstatic⟩ := hfront.begins hnext
  rw [hassoc]
  exact ⟨hmember, membersBody_member hkind hk hstatic hmember⟩

/-- The fields of `@N static int[] a = x < y, b[], c = {1, 2};` with a comment in front. The comma
behind the comparison ends the first initializer. -/
theorem member_fields_three :
    let sign := { loose .atSign "@" with doc := some "/** d */" }
    let front := [sign, loose .identifier "N", loose (.modifier .isStatic) "static"]
    let tls := [loose .primitive "int", loose .leftBracket "[", loose .rightBracket "]"]
    let comparison := [loose .identifier "x", loose .less "<", loose .identifier "y"]
    let numbers := [loose .leftBrace "\x7b", loose .number "1", loose .comma ",",
      loose .number "2", loose .rightBrace "\x7d"]
    let ls := loose .identifier "a" :: loose .equals "=" :: (comparison ++ loose .comma "," ::
      loose .identifier "b" :: loose .leftBracket "[" :: loose .rightBracket "]" ::
        loose .comma "," :: loose .identifier "c" :: loose .equals "=" ::
          (numbers ++ [loose .semicolon ";"]))
    let d : Decorations := ⟨[.isStatic], [⟨"N", none⟩]⟩
    let ds : List Declarator :=
      [⟨"a", 0, some "x<y"⟩, ⟨"b", 1, none⟩, ⟨"c", 0, some "\x7b1,2\x7d"⟩]
    let field (name : String) (dims : Nat) (initializer : Option String) : List Event :=
      [.doc (DocText.clean "/** d */") (.onField name),
        .beginField
          ⟨name, [.isStatic], [⟨"N", none⟩], ⟨"int", [], dims⟩, initializer, false, 1⟩,
        .endField]
    (Decorated d front ∧ type tls = ([], .ok (⟨"int", [], 1⟩, [])) ∧
      kindAt tls 0 ≠ some .atSign ∧ tls.map Lexeme.text ≠ ["sealed"] ∧ Declares ds ls ∧
        (front ++ tls).head? = some sign) ∧
    ∀ readClass, member readClass .plainClass "C" (front ++ tls ++ ls ++ []) =
      (field "a" 1 (some "x<y") ++ (field "b" 2 none ++ field "c" 1 (some "\x7b1,2\x7d")),
        .ok ((), [])) := by
  intro sign front tls comparison numbers ls d ds field
  have hnote : Annotates ⟨"N", none⟩ [sign, loose .identifier "N"] := .bare rfl rfl (.nil _)
  have hfront : Decorated d front := .note hnote (.modifier rfl .nil)
  have ht : type tls = ([], .ok (⟨"int", [], 1⟩, [])) := rfl
  have hfirst : Initializes (some (bareText comparison)) (loose .equals "=" :: comparison) :=
    .given rfl (by decide) (by decide) (by decide)
  have hlast : Initializes (some (bareText numbers)) (loose .equals "=" :: numbers) :=
    .given rfl (by decide) (by decide) (by decide)
  have hds : Declares ds ls :=
    .next (x := loose .identifier "a") rfl .nil hfirst rfl <|
      .next (x := loose .identifier "b") rfl
        (.cons (l := loose .leftBracket "[") (r := loose .rightBracket "]") rfl rfl .nil) .absent
        rfl (.last (x := loose .identifier "c") rfl .nil hlast rfl)
  exact ⟨⟨hfront, ht, by decide, by decide, hds, rfl⟩, fun readClass =>
    (member_fields readClass .plainClass "C" hfront ht (by decide) (by decide) hds rfl []).1⟩

end JavaModel.Grammar
