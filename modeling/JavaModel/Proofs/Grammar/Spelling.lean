import JavaModel.Proofs.Grammar.PackageNames
import JavaModel.Proofs.Model.References
import JavaModel.Proofs.Name

/-! Names as the grammar builds them. Whatever holds of each word that names are made of holds of
each segment of each name that a text tells: of packages, imports and classes, and of the types in
declarations at any depth. `Spells W p Q` says so of a reader `p` whose results are in `Q`. -/

namespace JavaModel

open Name

/-- Every name in a type, at any depth, is made of words in `W`. -/
def TypeExpr.Spelled (W : String → Prop) (t : TypeExpr) : Prop := ∀ name ∈ t.names, Dotted W name

/-- Every name in types and of annotations is made of words in `W`. -/
def AllSpelled (W : String → Prop) (ts : List TypeExpr) : Prop := ∀ t ∈ ts, t.Spelled W

/-- Every name that an event tells, but for those of members, is made of words in `W`. -/
def Event.Spelled (W : String → Prop) : Event → Prop
  | .package p => Dotted W p.name ∧ AllSpelled W (annotationTypes p.annotations)
  | .imports i => Dotted W i.name
  | .beginClass c => Single W c.name ∧ AllSpelled W c.types
  | .beginField f => AllSpelled W f.types
  | .beginMethod m => AllSpelled W m.types
  | _ => True

/-- All words that names are made of are in `W`. -/
def Worded (W : String → Prop) (ls : List Lexeme) : Prop :=
  ∀ l ∈ ls, l.kind.isNaming → Single W l.text

section

variable {W : String → Prop} {ts us : List TypeExpr} {t : TypeExpr}

theorem Worded.mono {ls ls' : List Lexeme} (h : Worded W ls) (hsub : ls' ⊆ ls) : Worded W ls' :=
  fun l hl => h l (hsub hl)

theorem allSpelled_nil : AllSpelled W [] := fun _ ht => absurd ht List.not_mem_nil

theorem AllSpelled.append (hts : AllSpelled W ts) (hus : AllSpelled W us) :
    AllSpelled W (ts ++ us) := List.forall_mem_append.mpr ⟨hts, hus⟩

theorem allSpelled_singleton (h : t.Spelled W) : AllSpelled W [t] :=
  List.forall_mem_singleton.mpr h

theorem allSpelled_flatMap {α : Type} {as : List α} {types : α → List TypeExpr}
    (h : ∀ a ∈ as, AllSpelled W (types a)) : AllSpelled W (as.flatMap types) := by
  intro t ht
  obtain ⟨a, ha, ht⟩ := List.mem_flatMap.mp ht
  exact h a ha t ht

theorem spelled_simple {name : String} (h : Dotted W name) : (TypeExpr.simple name).Spelled W :=
  List.forall_mem_singleton.mpr h

theorem spelled_addDims (h : t.Spelled W) (extra : Nat) : (t.addDims extra).Spelled W := by
  obtain ⟨name, args, dims⟩ := t
  exact h

end

namespace Reader

variable {α β : Type} {W : String → Prop} {Q : α → Prop} {R : β → Prop}

/-- Where the words that names are made of are in `W`, a reader tells names made of them, leaves
lexemes of this sort, and has a result in `Q`. -/
def Spells (W : String → Prop) (p : Reader α) (Q : α → Prop) : Prop :=
  ∀ ls, Worded W ls → (∀ e ∈ (p ls).1, e.Spelled W) ∧
    ∀ a rest, (p ls).2 = .ok (a, rest) → Q a ∧ Worded W rest

theorem Spells.bind {p : Reader α} {f : α → Reader β} (hp : Spells W p Q)
    (hf : ∀ a, Q a → Spells W (f a) R) : Spells W (p >>= f) R := by
  intro ls hls
  obtain ⟨hfirst, hresult⟩ := hp ls hls
  change (∀ e ∈ (andThen p f ls).1, _) ∧ ∀ b rest, (andThen p f ls).2 = .ok (b, rest) → _
  unfold andThen
  rcases hrun : p ls with ⟨told, m | ⟨a, rest⟩⟩
  · rw [hrun] at hfirst
    exact ⟨hfirst, fun b rest h => by cases h⟩
  · rw [hrun] at hfirst hresult
    obtain ⟨ha, hrest⟩ := hresult a rest rfl
    obtain ⟨hmore, hlast⟩ := hf a ha rest hrest
    exact ⟨List.forall_mem_append.mpr ⟨hfirst, hmore⟩, hlast⟩

theorem Spells.mono {Q' : α → Prop} {p : Reader α} (hp : Spells W p Q) (h : ∀ a, Q a → Q' a) :
    Spells W p Q' := by
  intro ls hls
  obtain ⟨hevents, hresult⟩ := hp ls hls
  refine ⟨hevents, fun a rest hrun => ?_⟩
  obtain ⟨ha, hrest⟩ := hresult a rest hrun
  exact ⟨h a ha, hrest⟩

theorem Spells.ite {c : Prop} [Decidable c] {p q : Reader α} (hp : Spells W p Q)
    (hq : Spells W q Q) : Spells W (if c then p else q) Q := by
  split
  · exact hp
  · exact hq

/-- A silent reader that leaves only lexemes that it was given. -/
theorem Silent.spells {p : Reader α} (hsilent : Silent p) (hleaves : Leaves p) :
    Spells W p fun _ => True := by
  intro ls hls
  refine ⟨fun e he => ?_, fun a rest hrun => ⟨trivial, hls.mono (hleaves ls a rest hrun)⟩⟩
  rw [hsilent ls] at he
  cases he

theorem spells_pure {a : α} (h : Q a) : Spells W (pure a) Q := by
  refine fun ls hls => ⟨fun e he => absurd he List.not_mem_nil, ?_⟩
  rintro b rest ⟨⟩
  exact ⟨h, hls⟩

theorem spells_fail (x : Expectation) : Spells W (fail x : Reader α) Q :=
  fun _ _ => ⟨fun e he => absurd he List.not_mem_nil, fun a rest hrun => by cases hrun⟩

theorem spells_tell {e : Event} (h : e.Spelled W) : Spells W (tell e) fun _ => True := by
  refine fun ls hls => ⟨List.forall_mem_singleton.mpr h, ?_⟩
  rintro b rest ⟨⟩
  exact ⟨trivial, hls⟩

theorem spells_lookAhead : Spells W lookAhead (Worded W) := by
  refine fun ls hls => ⟨fun e he => absurd he List.not_mem_nil, ?_⟩
  rintro b rest ⟨⟩
  exact ⟨hls, hls⟩

theorem spells_continueWith {ls : List Lexeme} (h : Worded W ls) :
    Spells W (continueWith ls) fun _ => True := by
  refine fun _ _ => ⟨fun e he => absurd he List.not_mem_nil, ?_⟩
  rintro b rest ⟨⟩
  exact ⟨trivial, h⟩

theorem spells_skip (n : Nat) : Spells W (skip n) fun _ => True :=
  (silent_skip n).spells (leaves_skip n)

theorem spells_atKind (k : TokenKind) : Spells W (atKind k) fun _ => True :=
  (silent_atKind k).spells (leaves_atKind k)

theorem spells_docHere : Spells W docHere fun _ => True :=
  silent_docHere.spells (by rintro ls a rest ⟨⟩; exact List.Subset.refl ls)

theorem spells_lineHere : Spells W lineHere fun _ => True :=
  silent_lineHere.spells (by rintro ls a rest ⟨⟩; exact List.Subset.refl ls)

theorem leaves_accept (k : TokenKind) : Leaves (accept k) := by
  intro ls a rest h
  unfold accept at h
  split at h
  · split at h
    · cases h
      exact List.subset_cons_self _ _
    · cases h
      exact List.Subset.refl _
  · cases h
    exact List.Subset.refl _

theorem spells_accept (k : TokenKind) : Spells W (accept k) fun _ => True :=
  (silent_accept k).spells (leaves_accept k)

/-- What is taken is a word in `W` if it is one that names are made of. -/
theorem spells_expect (k : TokenKind) (x : Expectation) :
    Spells W (expect k x) fun text => k.isNaming → Single W text := by
  intro ls hls
  refine ⟨fun e he => ?_, fun text rest h => ?_⟩
  · rw [silent_expect k x ls] at he
    cases he
  · unfold expect at h
    split at h
    · rename_i l rest'
      split at h
      · cases h
        obtain ⟨hl, hrest⟩ := List.forall_mem_cons.mp hls
        exact ⟨fun hk => hl (by rwa [‹l.kind = k›]), hrest⟩
      · cases h
    · cases h

theorem spells_identifier (x : Expectation) : Spells W (identifier x) (Single W) :=
  (spells_expect .identifier x).mono fun _ h => h (.inl rfl)

/-- A repetition spells what its body spells, from values that satisfy `I`. -/
theorem Spells.recurse {I : α → Prop} {body : (α → Reader β) → α → Reader β}
    (hbody : ∀ self, (∀ a, I a → Spells W (self a) R) → ∀ a, I a → Spells W (body self a) R)
    {a : α} (ha : I a) : Spells W (recurse body a) R := fun ls hls =>
  unroll_induction (P := fun a p => I a → Spells W p R) (fun _ _ => spells_fail _) hbody
    (ls.length + 1) a ha ls hls

theorem Spells.many {item : Reader α} (h : Spells W item Q) (starts : List Lexeme → Bool) :
    Spells W (many starts item) fun as => ∀ a ∈ as, Q a := by
  refine Spells.recurse (I := fun _ => True) (fun self hself _ _ => ?_) trivial
  refine spells_lookAhead.bind fun ls _ => .ite ?_ (spells_pure (by simp))
  exact h.bind fun a ha => (hself () trivial).bind fun as has =>
    spells_pure (List.forall_mem_cons.mpr ⟨ha, has⟩)

theorem Spells.separated {item : Reader α} (h : Spells W item Q) (separator : TokenKind) :
    Spells W (separated separator item) fun as => ∀ a ∈ as, Q a := by
  refine Spells.recurse (I := fun _ => True) (fun self hself _ _ => h.bind fun a ha => ?_) trivial
  refine (spells_accept _).bind fun b _ => .ite ?_ (spells_pure (by simpa using ha))
  exact (hself () trivial).bind fun as has => spells_pure (List.forall_mem_cons.mpr ⟨ha, has⟩)

end Reader

namespace Grammar

open Reader

variable {W : String → Prop}

/-! ### Raw text -/

theorem splitExpression_subset (s : ExpressionState) (ls : List Lexeme) :
    (splitExpression s ls).2 ⊆ ls := by
  induction ls generalizing s with
  | nil => simp [splitExpression]
  | cons l ls ih =>
    unfold splitExpression
    dsimp only
    repeat' split
    all_goals first
      | exact List.subset_cons_of_subset l (ih _)
      | exact List.Subset.refl _

theorem leaves_expression : Leaves expression := by
  intro ls text rest h
  have hsub := splitExpression_subset ⟨0, 0, none⟩ ls
  simp only [expression, fail] at h
  repeat' split at h
  all_goals cases h
  exact hsub

theorem spells_expression : Spells W expression fun _ => True :=
  silent_expression.spells leaves_expression

theorem spells_enclosed (b : Bracket) : Spells W (enclosed b) fun _ => True :=
  (silent_enclosed b).spells (leaves_enclosed b)

theorem spells_expressionAfter (k : TokenKind) : Spells W (do
    if ← accept k then pure (some (← expression)) else pure none) fun _ => True :=
  (spells_accept k).bind fun _ _ => .ite
    (spells_expression.bind fun _ _ => spells_pure trivial) (spells_pure trivial)

theorem spells_enclosedAt (k : TokenKind) (b : Bracket) : Spells W (do
    if ← atKind k then pure (some (← enclosed b)) else pure none) fun _ => True :=
  (spells_atKind k).bind fun _ _ => .ite
    ((spells_enclosed b).bind fun _ _ => spells_pure trivial) (spells_pure trivial)

theorem countDims_subset (ls : List Lexeme) : (countDims ls).2 ⊆ ls := by
  fun_induction countDims ls with
  | case1 l r ls _ n rest hcount ih =>
    rw [hcount] at ih
    exact List.subset_cons_of_subset l (List.subset_cons_of_subset r ih)
  | case2 => exact List.Subset.refl _
  | case3 => exact List.Subset.refl _

theorem spells_dims : Spells W dims fun _ => True :=
  silent_dims.spells (by rintro ls a rest ⟨⟩; exact countDims_subset ls)

/-! ### Names and annotations -/

theorem takeSegments_dotted {name : String} {ls : List Lexeme} (hname : Dotted W name)
    (hls : Worded W ls) : Dotted W (takeSegments name ls).1 := by
  fun_induction takeSegments name ls with
  | case1 name d l ls hkind ih =>
    simp only [Bool.and_eq_true, decide_eq_true_eq] at hkind
    obtain ⟨_, hrest⟩ := List.forall_mem_cons.mp hls
    obtain ⟨hl, hrest⟩ := List.forall_mem_cons.mp hrest
    exact ih (hname.append (hl (.inl hkind.2)).dotted) hrest
  | case2 => exact hname
  | case3 => exact hname

theorem spells_qualifiedName : Spells W qualifiedName (Dotted W) := by
  refine (spells_identifier _).bind fun first hfirst => spells_lookAhead.bind fun ls hls => ?_
  have hrest := hls.mono (takeSegments_spec first ls).2
  exact (spells_continueWith hrest).bind fun _ _ =>
    spells_pure (takeSegments_dotted hfirst.dotted hls)

theorem spells_annotationUse : Spells W annotationUse fun a => Dotted W a.type := by
  refine (spells_skip 1).bind fun _ _ => spells_qualifiedName.bind fun name hname => ?_
  refine (spells_atKind _).bind fun b _ => .ite ?_ (spells_pure hname)
  exact (spells_enclosed _).bind fun _ _ => spells_pure hname

theorem allSpelled_annotationTypes {as : List (AnnotationUse String)}
    (h : ∀ a ∈ as, Dotted W a.type) : AllSpelled W (annotationTypes as) := by
  intro t ht
  obtain ⟨a, ha, rfl⟩ := List.mem_map.mp ht
  exact spelled_simple (h a ha)

theorem spells_annotations :
    Spells W annotations fun as => AllSpelled W (annotationTypes as) :=
  (spells_annotationUse.many _).mono fun _ => allSpelled_annotationTypes

theorem spells_decorations :
    Spells W decorations fun d => AllSpelled W (annotationTypes d.annotations) := by
  refine Spells.recurse (I := fun _ => True) (fun self hself _ _ => ?_) trivial
  refine spells_lookAhead.bind fun ls _ => .ite ?_ ?_
  · refine spells_annotationUse.bind fun a ha => (hself () trivial).bind fun more hmore => ?_
    exact spells_pure (List.forall_mem_cons.mpr ⟨spelled_simple ha, hmore⟩)
  · cases modifierAt? ls with
    | none => exact spells_pure allSpelled_nil
    | some mn =>
      exact (spells_skip _).bind fun _ _ => (hself () trivial).bind fun more hmore =>
        spells_pure hmore

/-! ### Types -/

/-- Every name in a type argument is made of words in `W`. -/
def SpelledArg (W : String → Prop) (a : Argument TypeExpr) : Prop :=
  ∀ name ∈ TypeExpr.namesArg a, Dotted W name

theorem spelled_mk {name : String} {args : List (Argument TypeExpr)} {dims : Nat}
    (hname : Dotted W name) (hargs : ∀ a ∈ args, SpelledArg W a) :
    TypeExpr.Spelled W ⟨name, args, dims⟩ := by
  have hnames : ∀ n ∈ TypeExpr.namesArgs args, Dotted W n := by
    induction args with
    | nil => exact fun _ hn => absurd hn List.not_mem_nil
    | cons a as ih =>
      obtain ⟨ha, has⟩ := List.forall_mem_cons.mp hargs
      exact List.forall_mem_append.mpr ⟨ih has, ha⟩
  exact List.forall_mem_cons.mpr ⟨hname, hnames⟩

theorem spells_typeArgument {type : Reader TypeExpr} (h : Spells W type (TypeExpr.Spelled W)) :
    Spells W (typeArgument type) (SpelledArg W) := by
  refine spells_annotations.bind fun _ _ => (spells_accept _).bind fun b _ => .ite ?_ ?_
  · refine (spells_accept _).bind fun b _ => .ite (h.bind fun t ht => spells_pure ht) ?_
    refine (spells_accept _).bind fun b _ => .ite (h.bind fun t ht => spells_pure ht) ?_
    exact spells_pure fun _ hn => absurd hn List.not_mem_nil
  · exact h.bind fun t ht => spells_pure ht

theorem spells_typeArguments {type : Reader TypeExpr} (h : Spells W type (TypeExpr.Spelled W)) :
    Spells W (typeArguments type) fun as => ∀ a ∈ as, SpelledArg W a := by
  have hnone : ∀ a ∈ ([] : List (Argument TypeExpr)), SpelledArg W a := by simp
  refine (spells_accept _).bind fun b _ => .ite ?_ (spells_pure hnone)
  refine (spells_accept _).bind fun b _ => .ite (spells_pure hnone) ?_
  exact ((spells_typeArgument h).separated _).bind fun as has =>
    (spells_expect _ _).bind fun _ _ => spells_pure has

theorem spells_typeSegments {type : Reader TypeExpr} (h : Spells W type (TypeExpr.Spelled W))
    {name : String} (hname : Dotted W name) : Spells W (typeSegments type name) fun named =>
      Dotted W named.1 ∧ ∀ a ∈ named.2, SpelledArg W a := by
  refine Spells.recurse (fun self hself name hname => ?_) hname
  refine (spells_typeArguments h).bind fun args hargs => spells_lookAhead.bind fun _ _ =>
    .ite ?_ (spells_pure ⟨hname, hargs⟩)
  refine (spells_skip 1).bind fun _ _ => spells_annotations.bind fun _ _ => ?_
  exact (spells_identifier _).bind fun segment hsegment =>
    hself _ (hname.append hsegment.dotted)

theorem spells_type : Spells W type (TypeExpr.Spelled W) := by
  refine Spells.recurse (I := fun _ => True) (fun self hself _ _ => ?_) trivial
  refine spells_annotations.bind fun _ _ => (spells_atKind _).bind fun b _ => .ite ?_ ?_
  · refine (spells_expect _ _).bind fun name hname => spells_dims.bind fun _ _ => ?_
    exact spells_pure (spelled_mk (hname (.inr rfl)).dotted (by simp))
  · refine (spells_identifier _).bind fun first hfirst => ?_
    refine (spells_typeSegments (hself () trivial) hfirst.dotted).bind fun named hnamed => ?_
    exact spells_dims.bind fun _ _ => spells_pure (spelled_mk hnamed.1 hnamed.2)

theorem spells_typeList : Spells W typeList (AllSpelled W) := spells_type.separated _

theorem spells_typesAfter (word : TokenKind) : Spells W (typesAfter word) (AllSpelled W) :=
  (spells_accept _).bind fun _ _ => .ite spells_typeList (spells_pure allSpelled_nil)

/-! ### Parameters -/

theorem spells_typeParameter : Spells W typeParameter fun p => AllSpelled W p.bounds := by
  refine spells_annotations.bind fun _ _ => (spells_identifier _).bind fun name _ => ?_
  refine (spells_accept _).bind fun _ _ => .ite ?_ (spells_pure allSpelled_nil)
  exact (spells_type.separated _).bind fun bounds hbounds => spells_pure hbounds

theorem spells_typeParameters :
    Spells W typeParameters fun ps => AllSpelled W (boundTypes ps) := by
  refine (spells_accept _).bind fun _ _ => .ite ?_ (spells_pure allSpelled_nil)
  exact (spells_typeParameter.separated _).bind fun ps hps =>
    (spells_expect _ _).bind fun _ _ => spells_pure (allSpelled_flatMap hps)

theorem spells_parameter : Spells W parameter fun p => ∀ q ∈ p, AllSpelled W q.types := by
  refine spells_decorations.bind fun d hd => spells_type.bind fun t ht => ?_
  refine spells_annotations.bind fun _ _ => (spells_accept _).bind fun _ _ => ?_
  refine spells_lookAhead.bind fun ls _ => ?_
  cases receiverLength? ls with
  | some n => exact (spells_skip _).bind fun _ _ => spells_pure (by simp)
  | none =>
    refine (spells_identifier _).bind fun name _ => spells_dims.bind fun extra _ => ?_
    refine spells_pure ?_
    rintro q ⟨⟩
    exact hd.append (allSpelled_singleton (spelled_addDims ht extra))

theorem spells_parameters : Spells W parameters fun ps => ∀ p ∈ ps, AllSpelled W p.types := by
  refine (spells_expect _ _).bind fun _ _ => (spells_accept _).bind fun _ _ => ?_
  refine .ite (spells_pure (by simp)) ?_
  refine (spells_parameter.separated _).bind fun ps hps => (spells_expect _ _).bind fun _ _ => ?_
  refine spells_pure fun p hp => ?_
  obtain ⟨q, hq, hsome⟩ := List.mem_filterMap.mp hp
  exact hps q hq p hsome

/-! ### Fields and methods -/

/-- The annotations of what begins are spelled. -/
def Opening.Spelled (W : String → Prop) (o : Opening) : Prop :=
  AllSpelled W (annotationTypes o.decorations.annotations)

theorem spells_opening : Spells W opening (Opening.Spelled W) :=
  spells_docHere.bind fun _ _ => spells_lineHere.bind fun _ _ =>
    spells_decorations.bind fun _ hd => spells_pure hd

theorem spells_tellDoc (doc : Option String) (target : DocTarget) :
    Spells W (tellDoc doc target) fun _ => True := by
  cases doc with
  | none => exact spells_pure trivial
  | some text => exact spells_tell trivial

theorem spells_tellField (doc : Option String) {f : Written.Field} (h : AllSpelled W f.types) :
    Spells W (tellField doc f) fun _ => True :=
  (spells_tellDoc doc _).bind fun _ _ => Spells.bind (spells_tell h) fun _ _ => spells_tell trivial

theorem spells_tellMethod (doc : Option String) {m : Written.Method} (h : AllSpelled W m.types) :
    Spells W (tellMethod doc m) fun _ => True :=
  (spells_tellDoc doc _).bind fun _ _ => Spells.bind (spells_tell h) fun _ _ => spells_tell trivial

theorem spells_declarators {o : Opening} {t : TypeExpr} (ho : o.Spelled W) (ht : t.Spelled W)
    (name : String) : Spells W (declarators o t name) fun _ => True := by
  refine Spells.recurse (I := fun _ => True) (fun self hself name _ => ?_) trivial
  refine spells_dims.bind fun extra _ => (spells_expressionAfter _).bind fun initializer _ => ?_
  refine (spells_tellField o.doc ?_).bind fun _ _ => (spells_accept _).bind fun _ _ => .ite ?_ ?_
  · exact ho.append (allSpelled_singleton (spelled_addDims ht extra))
  · exact (spells_identifier _).bind fun next _ => hself next trivial
  · exact (spells_expect _ _).bind fun _ _ => spells_pure trivial

theorem spells_methodRest {o : Opening} {typeParams : List (TypeParameter TypeExpr)}
    {returnType : Option TypeExpr} (ho : o.Spelled W)
    (hparams : AllSpelled W (boundTypes typeParams)) (hreturn : ∀ t ∈ returnType, t.Spelled W)
    (name : String) : Spells W (methodRest o typeParams returnType name) fun _ => True := by
  have hbody : Spells W (do
      if ← atKind .leftBrace then pure (some (← enclosed .brace))
      else
        let _ ← expect .semicolon .methodEnd
        pure none) fun _ => True :=
    (spells_atKind _).bind fun _ _ => .ite
      ((spells_enclosed _).bind fun _ _ => spells_pure trivial)
      ((spells_expect _ _).bind fun _ _ => spells_pure trivial)
  refine spells_parameters.bind fun params hps => spells_dims.bind fun extra _ => ?_
  refine (spells_typesAfter _).bind fun throwing hthrowing => ?_
  refine (spells_expressionAfter _).bind fun defaultValue _ => hbody.bind fun body _ => ?_
  refine spells_tellMethod _ ?_
  have hreturned : AllSpelled W (returnType.map (·.addDims extra)).toList := by
    cases returnType with
    | none => exact allSpelled_nil
    | some t => exact allSpelled_singleton (spelled_addDims (hreturn t rfl) extra)
  exact (((ho.append hparams).append hreturned).append (allSpelled_flatMap hps)).append hthrowing

/-! ### Enum constants and records -/

theorem spells_constantEnd {self : Unit → Reader Unit} (hself : Spells W (self ()) fun _ => True) :
    Spells W (constantEnd self) fun _ => True := by
  refine (spells_accept _).bind fun _ _ => .ite hself (spells_lookAhead.bind fun ls _ => ?_)
  split
  · exact spells_skip 1
  · exact spells_pure trivial
  · exact spells_fail _

theorem spells_constants {enum : String} (henum : Dotted W enum) :
    Spells W (constants enum) fun _ => True := by
  refine Spells.recurse (I := fun _ => True) (fun self hself _ _ => ?_) trivial
  rw [constantsBody_eq]
  refine spells_lookAhead.bind fun ls _ => ?_
  split
  · exact spells_skip 1
  · exact spells_pure trivial
  · exact spells_pure trivial
  · refine spells_docHere.bind fun doc _ => spells_lineHere.bind fun line _ => ?_
    refine spells_annotations.bind fun notes hnotes => (spells_identifier _).bind fun name _ => ?_
    refine (spells_enclosedAt _ _).bind fun initializer _ => ?_
    have htypes : AllSpelled W (annotationTypes notes ++ [.simple enum]) :=
      hnotes.append (allSpelled_singleton (spelled_simple henum))
    have hend := spells_constantEnd (hself () trivial)
    refine (spells_atKind _).bind fun b _ => .ite ?_ ?_
    · refine (spells_enclosed _).bind fun _ _ => ?_
      exact (spells_tellField doc htypes).bind fun _ _ => hend
    · exact (spells_tellField doc htypes).bind fun _ _ => hend

theorem spells_tellComponents (line : Nat) {components : List Written.Parameter}
    (h : ∀ p ∈ components, AllSpelled W p.types) :
    Spells W (tellComponents line components) fun _ => True := by
  induction components with
  | nil => exact spells_pure trivial
  | cons p ps ih =>
    obtain ⟨hp, hps⟩ := List.forall_mem_cons.mp h
    unfold tellComponents
    cases p.name with
    | none => exact ih hps
    | some name => exact (spells_tellField none hp).bind fun _ _ => ih hps

/-! ### Classes -/

/-- A reader of type declarations whose names are spelled. -/
def SpellsTypes (W : String → Prop) (readClass : ReadClass) : Prop :=
  ∀ kind o, o.Spelled W → Spells W (readClass (kind, o)) fun _ => True

theorem spells_member {readClass : ReadClass} (h : SpellsTypes W readClass) (owner : ClassKind)
    (className : String) : Spells W (member readClass owner className) fun _ => True := by
  refine spells_opening.bind fun o ho => spells_lookAhead.bind fun ls _ => ?_
  split
  · exact h _ o ho
  · refine spells_typeParameters.bind fun typeParams hparams => ?_
    refine spells_lookAhead.bind fun ls _ => .ite ?_ (.ite ?_ ?_)
    · exact (spells_skip 1).bind fun _ _ => spells_methodRest ho hparams (by simp) _
    · refine (spells_skip 1).bind fun _ _ => ?_
      exact (spells_enclosed _).bind fun _ _ => spells_pure trivial
    · refine spells_type.bind fun t ht => (spells_identifier _).bind fun name _ => ?_
      refine (spells_atKind _).bind fun b _ => .ite ?_ (spells_declarators ho ht name)
      refine spells_methodRest ho hparams ?_ name
      rintro _ ⟨⟩
      exact ht

theorem spells_members {readClass : ReadClass} (h : SpellsTypes W readClass) (owner : ClassKind)
    (className : String) :
    Spells W (recurse (membersBody readClass owner className) ()) fun _ => True := by
  refine Spells.recurse (I := fun _ => True) (fun self hself _ _ => ?_) trivial
  refine spells_lookAhead.bind fun ls _ => ?_
  split
  · exact spells_fail _
  · exact spells_skip 1
  · exact (spells_skip 1).bind fun _ _ => hself () trivial
  · exact (spells_enclosed _).bind fun _ _ => hself () trivial
  · refine .ite ?_ ?_
    · refine (spells_skip 1).bind fun _ _ => ?_
      exact (spells_enclosed _).bind fun _ _ => hself () trivial
    · exact (spells_member h owner className).bind fun _ _ => hself () trivial

theorem spells_classBody {readClass : ReadClass} (h : SpellsTypes W readClass) (kind : ClassKind)
    {name : String} (hname : Dotted W name) :
    Spells W (classBody readClass kind name) fun _ => True := by
  have hmembers := spells_members h kind name
  refine (spells_expect _ _).bind fun _ _ => .ite ?_ hmembers
  exact (spells_constants hname).bind fun _ _ => hmembers

theorem spells_extendedTypes (kind : ClassKind) :
    Spells W (extendedTypes kind) (AllSpelled W) := by
  cases kind with
  | plainClass =>
    exact (spells_accept _).bind fun _ _ => .ite
      (spells_type.bind fun t ht => spells_pure (allSpelled_singleton ht))
      (spells_pure allSpelled_nil)
  | interfaceType => exact spells_typesAfter _
  | enumType | annotationType | recordType => exact spells_pure allSpelled_nil

theorem spells_permittedTypes : Spells W permittedTypes (AllSpelled W) :=
  spells_lookAhead.bind fun _ _ => .ite ((spells_skip 1).bind fun _ _ => spells_typeList)
    (spells_pure allSpelled_nil)

theorem spells_classBodyOf {self : ReadClass} (h : SpellsTypes W self) :
    SpellsTypes W (classBodyOf self) := by
  intro kind o ho
  refine (spells_skip _).bind fun _ _ => (spells_identifier _).bind fun name hname => ?_
  refine spells_typeParameters.bind fun typeParams hparams => ?_
  have hcomponents : Spells W (if kind = .recordType then parameters else pure [])
      fun ps => ∀ p ∈ ps, AllSpelled W p.types := .ite spells_parameters (spells_pure (by simp))
  refine hcomponents.bind fun components hcs => ?_
  refine (spells_extendedTypes kind).bind fun extending hextending => ?_
  refine (spells_typesAfter _).bind fun implementing himplementing => ?_
  refine spells_permittedTypes.bind fun permitting hpermitting => ?_
  refine (spells_tellDoc _ _).bind fun _ _ => ?_
  refine Spells.bind (spells_tell ⟨hname, ?_⟩) fun _ _ => ?_
  · exact (((ho.append hparams).append hextending).append himplementing).append hpermitting
  have hbody : Spells W (do
      classBody self kind name
      tell .endClass) fun _ => True :=
    (spells_classBody h kind hname.dotted).bind fun _ _ => spells_tell trivial
  refine .ite ?_ hbody
  refine (spells_tellComponents _ hcs).bind fun _ _ => ?_
  refine (spells_tellMethod none ?_).bind fun _ _ => hbody
  simpa [Written.Method.types, canonicalConstructor, annotationTypes, boundTypes] using
    allSpelled_flatMap hcs

theorem spells_classDeclaration : SpellsTypes W classDeclaration := fun _ _ ho =>
  Spells.recurse (I := fun start => start.2.Spelled W)
    (fun _ hself start hstart => spells_classBodyOf (fun kind o ho => hself (kind, o) ho)
      start.1 start.2 hstart) ho

theorem spells_typeDeclaration : Spells W typeDeclaration fun _ => True := by
  refine spells_opening.bind fun o ho => spells_lookAhead.bind fun ls _ => ?_
  split
  · exact spells_classDeclaration _ o ho
  · exact spells_fail _

/-! ### Source units -/

theorem spells_packageDeclaration : Spells W packageDeclaration fun _ => True := by
  refine spells_lookAhead.bind fun start hstart => spells_docHere.bind fun doc _ => ?_
  refine spells_lineHere.bind fun line _ => spells_annotations.bind fun notes hnotes => ?_
  refine (spells_atKind _).bind fun b _ => .ite ?_ (spells_continueWith hstart)
  refine spells_docHere.bind fun nearer _ => (spells_tellDoc _ _).bind fun _ _ => ?_
  refine (spells_skip 1).bind fun _ _ => spells_qualifiedName.bind fun name hname => ?_
  exact (spells_expect _ _).bind fun _ _ => spells_tell ⟨hname, hnotes⟩

theorem spells_importedName {name : String} (hname : Dotted W name) :
    Spells W (recurse importedNameBody name) fun named => Dotted W named.1 := by
  refine Spells.recurse (fun self hself name hname => ?_) hname
  refine (spells_accept _).bind fun _ _ => .ite ?_ (spells_pure hname)
  refine spells_lookAhead.bind fun ls _ => .ite ?_ ?_
  · exact (spells_skip 1).bind fun _ _ => spells_pure hname
  · exact (spells_identifier _).bind fun part hpart => hself _ (hname.append hpart.dotted)

theorem spells_importDeclaration : Spells W importDeclaration fun _ => True := by
  refine spells_lineHere.bind fun line _ => (spells_skip 1).bind fun _ _ => ?_
  refine (spells_accept _).bind fun isStatic _ => (spells_identifier _).bind fun first hfirst => ?_
  refine (spells_importedName hfirst.dotted).bind fun named hnamed => ?_
  exact (spells_expect _ _).bind fun _ _ => spells_tell hnamed

theorem spells_moduleDeclaration : Spells W moduleDeclaration fun _ => True := by
  refine spells_lookAhead.bind fun ls hls => ?_
  have hrest := hls.mono (List.dropWhile_suffix fun l => l.kind ≠ .leftBrace).subset
  refine (spells_continueWith hrest).bind fun _ _ => (spells_atKind _).bind fun _ _ => ?_
  exact .ite ((spells_enclosed _).bind fun _ _ => spells_pure trivial) (spells_fail _)

theorem spells_declarations : Spells W (recurse declarationsBody ()) fun _ => True := by
  refine Spells.recurse (I := fun _ => True) (fun self hself _ _ => ?_) trivial
  refine spells_lookAhead.bind fun ls _ => .ite (spells_pure trivial) (.ite ?_ (.ite ?_ ?_))
  · exact (spells_skip 1).bind fun _ _ => hself () trivial
  · exact spells_moduleDeclaration.bind fun _ _ => hself () trivial
  · exact spells_typeDeclaration.bind fun _ _ => hself () trivial

theorem spells_compilationUnit : Spells W compilationUnit fun _ => True := by
  refine Spells.bind (spells_tell trivial) fun _ _ => ?_
  refine spells_packageDeclaration.bind fun _ _ => ?_
  refine (spells_importDeclaration.many _).bind fun _ _ => ?_
  exact spells_declarations.bind fun _ _ => spells_tell trivial

end Grammar

/-! ### Texts -/

theorem Lexer.IsWord.single {W : String → Prop} {word : String} (h : IsWord word)
    (hword : W word) : Single W word := by
  refine single_of_not_mem hword fun hdot => ?_
  have := h.chars '.' hdot
  revert this
  decide

/-- The names of primitive types are the words of their kind. -/
theorem TokenKind.mem_primitives {word : String} (h : ofWord word = .primitive) :
    word ∈ Name.primitives := by
  cases hlookup : words.lookup word with
  | none =>
    rw [ofWord, hlookup] at h
    cases h
  | some k =>
    obtain rfl : k = .primitive := by simpa [ofWord, hlookup] using h
    obtain ⟨front, rest, heq, _⟩ := List.lookup_eq_some_iff.mp hlookup
    have hmem : (word, TokenKind.primitive) ∈ words := by
      rw [heq]
      exact List.mem_append_right _ (List.mem_cons_self ..)
    simpa [words, Name.primitives] using hmem

/-- Where all identifiers of a text and all names of primitive types are in `W`, so are all segments
of the names that the text tells. -/
theorem spelled_parse {W : String → Prop} {text : String}
    (hidentifiers : ∀ t ∈ (lex text).tokens, t.kind = .identifier → W t.text)
    (hprimitives : ∀ word ∈ Name.primitives, W word) :
    ∀ e ∈ (parse text).events, e.Spelled W := by
  have hworded : Worded W (Lexeme.ofTokens (lex text).tokens) := by
    intro l hl hkind
    obtain ⟨hword, hof⟩ := Lexeme.word_of_lex hl hkind
    refine hword.single ?_
    rcases hkind with hkind | hkind
    · exact Lexeme.forall_attach (P := fun k text => k = .identifier → W text) hidentifiers l hl
        hkind
    · exact hprimitives _ (TokenKind.mem_primitives (hof.symm.trans hkind))
  rcases events_parse text with hnone | hsome
  · rw [hnone]
    exact fun e he => absurd he List.not_mem_nil
  · rw [hsome]
    exact (Grammar.spells_compilationUnit _ hworded).1

end JavaModel
