import JavaModel.Grammar.Types

/-! Readers that tell no event. Names, annotations, modifiers, types, parameters and raw text are
read in silence: a declaration tells of itself only once its head has been read. -/

namespace JavaModel

namespace Reader

variable {α β : Type}

/-- A reader that tells no event, whatever it reads and whether it succeeds or stops. -/
def Silent (p : Reader α) : Prop := ∀ ls, (p ls).1 = []

theorem Silent.bind {p : Reader α} {f : α → Reader β} (hp : Silent p) (hf : ∀ a, Silent (f a)) :
    Silent (p >>= f) := by
  intro ls
  have h := hp ls
  change (andThen p f ls).1 = []
  unfold andThen
  split
  · simp_all
  · rename_i told a rest hrun
    rw [hrun] at h
    simp_all [hf a rest]

theorem Silent.ite {c : Prop} [Decidable c] {p q : Reader α} (hp : Silent p) (hq : Silent q) :
    Silent (if c then p else q) := by
  split
  · exact hp
  · exact hq

theorem silent_pure (a : α) : Silent (pure a) := fun _ => rfl

theorem silent_fail (e : Expectation) : Silent (fail e : Reader α) := fun _ => rfl

theorem silent_lookAhead : Silent lookAhead := fun _ => rfl

theorem silent_continueWith (ls : List Lexeme) : Silent (continueWith ls) := fun _ => rfl

theorem silent_skip (n : Nat) : Silent (skip n) := fun _ => rfl

theorem silent_atKind (k : TokenKind) : Silent (atKind k) := fun _ => rfl

theorem silent_docHere : Silent docHere := fun _ => rfl

theorem silent_lineHere : Silent lineHere := fun _ => rfl

theorem silent_accept (k : TokenKind) : Silent (accept k) := by
  intro ls
  unfold accept
  split
  · split <;> rfl
  · rfl

theorem silent_expect (k : TokenKind) (e : Expectation) : Silent (expect k e) := by
  intro ls
  unfold expect
  split
  · split <;> rfl
  · rfl

/-- A lexeme that must stand next. -/
theorem expect_ok {k : TokenKind} {e : Expectation} {ls rest : List Lexeme} {told : List Event}
    {text : String} (h : expect k e ls = (told, .ok (text, rest))) :
    told = [] ∧ ∃ l, ls = l :: rest ∧ l.kind = k ∧ l.text = text := by
  unfold expect at h
  split at h
  · split at h
    · rename_i l rest hl
      cases h
      exact ⟨rfl, l, rfl, hl, rfl⟩
    · cases h
  · cases h

theorem silent_identifier (e : Expectation) : Silent (identifier e) := silent_expect _ e

/-- Two readers in sequence succeed one behind the other. -/
theorem bind_ok {p : Reader α} {f : α → Reader β} {ls rest : List Lexeme} {told : List Event}
    {b : β} (h : (p >>= f) ls = (told, .ok (b, rest))) :
    ∃ first a middle more, p ls = (first, .ok (a, middle)) ∧
      f a middle = (more, .ok (b, rest)) ∧ told = first ++ more := by
  change andThen p f ls = _ at h
  unfold andThen at h
  rcases hfirst : p ls with ⟨first, m | ⟨a, middle⟩⟩
  · rw [hfirst] at h
    cases h
  · rw [hfirst] at h
    rcases hmore : f a middle with ⟨more, result⟩
    simp only [hmore] at h
    obtain ⟨rfl, rfl⟩ := Prod.mk.inj h
    exact ⟨first, a, middle, more, rfl, hmore, rfl⟩

/-- A silent reader does not tell anything where it succeeds. -/
theorem Silent.told_eq {p : Reader α} (h : Silent p) {ls rest : List Lexeme} {told : List Event}
    {a : α} (hrun : p ls = (told, .ok (a, rest))) : told = [] := by
  simpa [hrun] using h ls

/-- Behind a silent reader another one tells all that is told. -/
theorem Silent.bind_ok {p : Reader α} {f : α → Reader β} {ls rest : List Lexeme}
    {told : List Event} {b : β} (hp : Silent p) (h : (p >>= f) ls = (told, .ok (b, rest))) :
    ∃ a middle, p ls = ([], .ok (a, middle)) ∧ f a middle = (told, .ok (b, rest)) := by
  obtain ⟨first, a, middle, more, hfirst, hmore, rfl⟩ := Reader.bind_ok h
  obtain rfl := hp.told_eq hfirst
  exact ⟨a, middle, hfirst, hmore⟩

/-- A property of readers that a failing one has and that a body passes on holds at every depth. -/
theorem unroll_induction {P : α → Reader β → Prop} {body : (α → Reader β) → α → Reader β}
    (hfail : ∀ a, P a (fail .endOfRepetition))
    (hbody : ∀ self, (∀ a, P a (self a)) → ∀ a, P a (body self a)) (n : Nat) (a : α) :
    P a (unroll body n a) := by
  induction n generalizing a with
  | zero => exact hfail a
  | succ n ih => exact hbody _ ih a

theorem Silent.recurse {body : (α → Reader β) → α → Reader β}
    (hbody : ∀ self, (∀ a, Silent (self a)) → ∀ a, Silent (body self a)) (a : α) :
    Silent (recurse body a) := fun ls =>
  unroll_induction (P := fun _ p => Silent p) (fun _ => silent_fail _) hbody (ls.length + 1) a ls

theorem Silent.many {item : Reader α} (h : Silent item) (starts : List Lexeme → Bool) :
    Silent (many starts item) := by
  refine Silent.recurse (fun self hself _ => silent_lookAhead.bind fun ls => ?_) ()
  exact .ite (h.bind fun a => (hself ()).bind fun as => silent_pure _) (silent_pure _)

theorem Silent.separated {item : Reader α} (h : Silent item) (separator : TokenKind) :
    Silent (separated separator item) := by
  refine Silent.recurse (fun self hself _ => h.bind fun a => ?_) ()
  exact (silent_accept _).bind fun b =>
    .ite ((hself ()).bind fun as => silent_pure _) (silent_pure _)

end Reader

namespace Grammar

open Reader

theorem silent_enclosed (b : Bracket) : Silent (enclosed b) := by
  intro ls
  unfold enclosed
  split <;> rfl

theorem silent_expression : Silent expression := by
  intro ls
  unfold expression
  split
  · rfl
  · split
    split
    · rfl
    · split <;> rfl

theorem silent_qualifiedName : Silent qualifiedName :=
  (silent_identifier _).bind fun _ => silent_lookAhead.bind fun _ =>
    (silent_continueWith _).bind fun _ => silent_pure _

theorem silent_annotationUse : Silent annotationUse := by
  refine (silent_skip 1).bind fun _ => silent_qualifiedName.bind fun name => ?_
  refine (silent_atKind _).bind fun b => .ite ?_ (silent_pure _)
  exact (silent_enclosed _).bind fun _ => silent_pure _

theorem silent_annotations : Silent annotations := silent_annotationUse.many _

theorem silent_decorations : Silent decorations := by
  refine Silent.recurse (fun self hself _ => silent_lookAhead.bind fun ls => .ite ?_ ?_) ()
  · exact silent_annotationUse.bind fun _ => (hself ()).bind fun _ => silent_pure _
  · cases modifierAt? ls with
    | none => exact silent_pure _
    | some mn =>
      exact (silent_skip _).bind fun _ => (hself ()).bind fun _ => silent_pure _

theorem silent_dims : Silent dims := fun _ => rfl

/-! ### Types -/

theorem silent_typeArgument {type : Reader TypeExpr} (h : Silent type) :
    Silent (typeArgument type) := by
  refine silent_annotations.bind fun _ => (silent_accept _).bind fun b => .ite ?_ ?_
  · refine (silent_accept _).bind fun b => .ite (h.bind fun _ => silent_pure _) ?_
    exact (silent_accept _).bind fun b => .ite (h.bind fun _ => silent_pure _) (silent_pure _)
  · exact h.bind fun _ => silent_pure _

theorem silent_typeArguments {type : Reader TypeExpr} (h : Silent type) :
    Silent (typeArguments type) := by
  refine (silent_accept _).bind fun b => .ite ?_ (silent_pure _)
  refine (silent_accept _).bind fun b => .ite (silent_pure _) ?_
  exact ((silent_typeArgument h).separated _).bind fun _ =>
    (silent_expect _ _).bind fun _ => silent_pure _

theorem silent_typeSegments {type : Reader TypeExpr} (h : Silent type) (name : String) :
    Silent (typeSegments type name) := by
  refine Silent.recurse (fun self hself name => ?_) name
  refine (silent_typeArguments h).bind fun _ => silent_lookAhead.bind fun _ =>
    .ite ?_ (silent_pure _)
  exact (silent_skip _).bind fun _ => silent_annotations.bind fun _ =>
    (silent_identifier _).bind fun _ => hself _

theorem silent_type : Silent type := by
  refine Silent.recurse (fun self hself _ => silent_annotations.bind fun _ =>
    (silent_atKind _).bind fun b => .ite ?_ ?_) ()
  · exact (silent_expect _ _).bind fun _ => silent_dims.bind fun _ => silent_pure _
  · exact (silent_identifier _).bind fun _ => (silent_typeSegments (hself ()) _).bind fun _ =>
      silent_dims.bind fun _ => silent_pure _

theorem silent_typeList : Silent typeList := silent_type.separated _

theorem silent_typesAfter (word : TokenKind) : Silent (typesAfter word) :=
  (silent_accept _).bind fun _ => .ite silent_typeList (silent_pure _)

/-! ### Parameters -/

theorem silent_typeParameter : Silent typeParameter := by
  refine silent_annotations.bind fun _ => (silent_identifier _).bind fun _ =>
    (silent_accept _).bind fun _ => .ite ?_ (silent_pure _)
  exact (silent_type.separated _).bind fun _ => silent_pure _

theorem silent_typeParameters : Silent typeParameters := by
  refine (silent_accept _).bind fun _ => .ite ?_ (silent_pure _)
  exact (silent_typeParameter.separated _).bind fun _ =>
    (silent_expect _ _).bind fun _ => silent_pure _

theorem silent_parameter : Silent parameter := by
  refine silent_decorations.bind fun _ => silent_type.bind fun _ => silent_annotations.bind fun _ =>
    (silent_accept _).bind fun _ => silent_lookAhead.bind fun ls => ?_
  cases receiverLength? ls with
  | some n => exact (silent_skip _).bind fun _ => silent_pure _
  | none =>
    exact (silent_identifier _).bind fun _ => silent_dims.bind fun _ => silent_pure _

theorem silent_parameters : Silent parameters := by
  refine (silent_expect _ _).bind fun _ => (silent_accept _).bind fun _ => .ite (silent_pure _) ?_
  exact (silent_parameter.separated _).bind fun _ =>
    (silent_expect _ _).bind fun _ => silent_pure _

end Grammar

end JavaModel
