import JavaModel.Grammar.CompilationUnit
import JavaModel.Proofs.Grammar.Fronts
import JavaModel.Proofs.Grammar.Parts

/-! Every repetition and every nesting goes on. A round of a loop of the grammar reaches the next
one, and a nested declaration or type is read, only when lexemes have been taken, so that the bound
on repetition is never met; and what a reader leaves stands at the end of what it was given. -/

namespace JavaModel

namespace Reader

variable {α β γ : Type} {m n : Nat} {ls : List Lexeme}

/-- On certain lexemes two readers do the same. Where they succeed they leave an end of the lexemes
and take `n` of them at least, and where they stop they stand at an end of them, not at the bound of
a repetition. -/
structure Agrees (n : Nat) (ls : List Lexeme) (p q : Reader α) : Prop where
  same : p ls = q ls
  taken : ∀ told a rest, p ls = (told, .ok (a, rest)) → rest <:+ ls ∧ rest.length + n ≤ ls.length
  stopped : ∀ told x, p ls = (told, .error x) →
    x.expected ≠ .endOfRepetition ∧ ∃ rest, rest <:+ ls ∧ x.found = rest.head?

/-- On certain lexemes a reader takes `n` at least where it succeeds, and it stops at an end of
them. -/
abbrev Proceeds (n : Nat) (ls : List Lexeme) (p : Reader α) : Prop := Agrees n ls p p

namespace Agrees

variable {p p' : Reader α} {f f' : α → Reader β}

theorem mono (h : Agrees n ls p p') (hmn : m ≤ n) : Agrees m ls p p' := by
  refine ⟨h.same, fun told a rest hrun => ?_, h.stopped⟩
  obtain ⟨hsuffix, hlength⟩ := h.taken told a rest hrun
  exact ⟨hsuffix, by omega⟩

/-- Of two readers in sequence the second has to take what is still missing. -/
theorem bind (hp : Agrees m ls p p')
    (hf : ∀ a rest, rest.length + m ≤ ls.length → Agrees (n - m) rest (f a) (f' a)) :
    Agrees n ls (p >>= f) (p' >>= f') := by
  have hsame := hp.same
  rcases hfirst : p ls with ⟨first, x | ⟨a, middle⟩⟩
  · have hrun : (p >>= f) ls = (first, .error x) := by
      show andThen p f ls = _
      simp only [andThen, hfirst]
    have hrun' : (p' >>= f') ls = (first, .error x) := by
      show andThen p' f' ls = _
      simp only [andThen, ← hsame, hfirst]
    refine ⟨hrun.trans hrun'.symm, fun told b rest h => ?_, fun told y h => ?_⟩
    · rw [hrun] at h
      cases h
    · rw [hrun] at h
      cases h
      exact hp.stopped _ _ hfirst
  · obtain ⟨hsuffix, hlength⟩ := hp.taken _ _ _ hfirst
    have hnext := hf a middle hlength
    have hrun : (p >>= f) ls = (first ++ (f a middle).1, (f a middle).2) := by
      show andThen p f ls = _
      simp only [andThen, hfirst]
    have hrun' : (p' >>= f') ls = (first ++ (f' a middle).1, (f' a middle).2) := by
      show andThen p' f' ls = _
      simp only [andThen, ← hsame, hfirst]
    refine ⟨by rw [hrun, hrun', hnext.same], fun told b rest h => ?_, fun told y h => ?_⟩
    · rw [hrun] at h
      obtain ⟨-, hsecond⟩ := Prod.mk.inj h
      obtain ⟨hsuffix', hlength'⟩ := hnext.taken _ b rest (Prod.ext rfl hsecond)
      exact ⟨hsuffix'.trans hsuffix, by omega⟩
    · rw [hrun] at h
      obtain ⟨-, hsecond⟩ := Prod.mk.inj h
      obtain ⟨hexpected, rest, hsuffix', hfound⟩ := hnext.stopped _ y (Prod.ext rfl hsecond)
      exact ⟨hexpected, rest, hsuffix'.trans hsuffix, hfound⟩

theorem ite {c : Prop} [Decidable c] {q q' : Reader α} (hp : c → Agrees n ls p p')
    (hq : ¬c → Agrees n ls q q') :
    Agrees n ls (if c then p else q) (if c then p' else q') := by
  by_cases hc : c
  · rw [if_pos hc, if_pos hc]
    exact hp hc
  · rw [if_neg hc, if_neg hc]
    exact hq hc

/-- A reader that takes `m` lexemes and tells nothing goes before others. -/
theorem pass {s : Reader γ} {f f' : γ → Reader β} {a : γ} {rest : List Lexeme}
    (hs : s ls = ([], .ok (a, rest))) (hrest : rest <:+ ls) (hlength : rest.length + m ≤ ls.length)
    (h : Agrees (n - m) rest (f a) (f' a)) : Agrees n ls (s >>= f) (s >>= f') := by
  refine ⟨?_, fun told b left hrun => ?_, fun told x hrun => ?_⟩
  · rw [bind_quiet hs, bind_quiet hs, h.same]
  · rw [bind_quiet hs] at hrun
    obtain ⟨hsuffix, hleft⟩ := h.taken told b left hrun
    exact ⟨hsuffix.trans hrest, by omega⟩
  · rw [bind_quiet hs] at hrun
    obtain ⟨hexpected, left, hsuffix, hfound⟩ := h.stopped told x hrun
    exact ⟨hexpected, left, hsuffix.trans hrest, hfound⟩

theorem see {s : Reader γ} {f f' : γ → Reader β} {a : γ} (hs : s ls = ([], .ok (a, ls)))
    (h : Agrees n ls (f a) (f' a)) : Agrees n ls (s >>= f) (s >>= f') :=
  pass (m := 0) hs (List.suffix_refl ls) (Nat.le_refl _) h

theorem skip {q q' : Reader β} (hm : m ≤ ls.length)
    (h : Agrees (n - m) (ls.drop m) q q') :
    Agrees n ls (Reader.skip m >>= fun _ => q) (Reader.skip m >>= fun _ => q') :=
  pass rfl (List.drop_suffix m ls) (by rw [List.length_drop]; omega) h

/-- Two readers, one for behind a lexeme of a kind and one for when that does not stand next. -/
theorem ifAccept {k : TokenKind} {q q' : Reader α}
    (hp : ∀ rest, rest.length + 1 = ls.length → Agrees (n - 1) rest p p')
    (hq : Agrees n ls q q') :
    Agrees n ls (accept k >>= fun b => if b then p else q)
      (accept k >>= fun b => if b then p' else q') := by
  match ls with
  | [] => exact see rfl hq
  | l :: ls =>
    by_cases hl : l.kind = k
    · exact pass (m := 1) (if_pos hl) (List.suffix_cons l ls) (Nat.le_refl _) (hp ls rfl)
    · exact see (if_neg hl) hq

theorem ifAtKind {k : TokenKind} {q q' : Reader α} (hp : Agrees n ls p p')
    (hq : Agrees n ls q q') :
    Agrees n ls (atKind k >>= fun b => if b then p else q)
      (atKind k >>= fun b => if b then p' else q') :=
  see rfl (.ite (fun _ => hp) fun _ => hq)

/-- A reader behind which a value is made. -/
theorem last (hp : Agrees n ls p p') (f : α → β) :
    Agrees n ls (p >>= fun a => pure (f a)) (p' >>= fun a => pure (f a)) := by
  refine hp.bind fun a rest _ => ?_
  rw [Nat.sub_self]
  refine ⟨rfl, ?_, ?_⟩
  · rintro told b left ⟨⟩
    exact ⟨List.suffix_refl _, by omega⟩
  · rintro told x ⟨⟩

/-- Readers that go on only with fewer lexemes do so with fewer rounds than there are lexemes. -/
theorem recurse {body body' : (α → Reader β) → α → Reader β} {k : Nat}
    (hbody : ∀ self other a ls, ls.length ≤ k →
      (∀ b rest, rest.length < ls.length → Agrees n rest (self b) (other b)) →
      Agrees n ls (body self a) (body' other a))
    (a : α) (ls : List Lexeme) (hk : ls.length ≤ k) :
    Agrees n ls (recurse body a) (recurse body' a) := by
  have hunroll (d : Nat) : ∀ a ls, ls.length ≤ k → ls.length < d →
      Agrees n ls (unroll body d a) (unroll body' d a) := by
    induction d with
    | zero => exact fun a ls _ hd => absurd hd (Nat.not_lt_zero _)
    | succ d ih =>
      exact fun a ls hk hd => hbody _ _ a ls hk fun b rest hlt => ih b rest (by omega) (by omega)
  have h := hunroll (ls.length + 1) a ls hk (Nat.lt_succ_self _)
  exact ⟨h.same, h.taken, h.stopped⟩

end Agrees

section Steps

theorem proceeds_pure (a : α) : Proceeds 0 ls (pure a : Reader α) := by
  refine ⟨rfl, ?_, ?_⟩
  · rintro told b left ⟨⟩
    exact ⟨List.suffix_refl _, by omega⟩
  · rintro told x ⟨⟩

theorem proceeds_fail {e : Expectation} (he : e ≠ .endOfRepetition) :
    Proceeds n ls (fail e : Reader α) := by
  refine ⟨rfl, ?_, ?_⟩
  · rintro told b left ⟨⟩
  · rintro told x ⟨⟩
    exact ⟨he, ls, List.suffix_refl _, rfl⟩

theorem proceeds_tell (e : Event) : Proceeds 0 ls (tell e) := by
  refine ⟨rfl, ?_, ?_⟩
  · rintro told b left ⟨⟩
    exact ⟨List.suffix_refl _, by omega⟩
  · rintro told x ⟨⟩

theorem proceeds_skip (hm : m ≤ ls.length) : Proceeds m ls (skip m) := by
  refine ⟨rfl, ?_, ?_⟩
  · rintro told b left ⟨⟩
    exact ⟨List.drop_suffix m ls, by rw [List.length_drop]; omega⟩
  · rintro told x ⟨⟩

theorem proceeds_accept (k : TokenKind) : Proceeds 0 ls (accept k) := by
  refine ⟨rfl, fun told b rest hrun => ?_, fun told x hrun => ?_⟩
  · unfold accept at hrun
    split at hrun
    · split at hrun
      · cases hrun
        exact ⟨List.suffix_cons _ _, by simp⟩
      · cases hrun
        exact ⟨List.suffix_refl _, by omega⟩
    · cases hrun
      exact ⟨List.suffix_refl _, by omega⟩
  · unfold accept at hrun
    split at hrun
    · split at hrun <;> cases hrun
    · cases hrun

theorem proceeds_expect {k : TokenKind} {e : Expectation} (he : e ≠ .endOfRepetition) :
    Proceeds 1 ls (expect k e) := by
  refine ⟨rfl, fun told text rest hrun => ?_, fun told x hrun => ?_⟩
  · obtain ⟨-, l, rfl, -⟩ := expect_ok hrun
    exact ⟨List.suffix_cons l rest, by simp⟩
  · unfold expect at hrun
    split at hrun
    · split at hrun
      · cases hrun
      · exact (proceeds_fail (n := 0) he).stopped told x hrun
    · exact (proceeds_fail (n := 0) he).stopped told x hrun

theorem agrees_manyBody {starts : List Lexeme → Bool} {item : Reader α}
    (h : ∀ ls, starts ls → Proceeds 1 ls item) {self other : Unit → Reader (List α)}
    (hself : ∀ rest, rest.length < ls.length → Agrees 0 rest (self ()) (other ())) :
    Agrees 0 ls (manyBody starts item self ()) (manyBody starts item other ()) := by
  refine .see rfl (.ite (fun hstarts => ?_) fun _ => proceeds_pure _)
  exact (h ls hstarts).bind fun a rest hrest => (hself rest (by omega)).last fun as => a :: as

theorem proceeds_many {starts : List Lexeme → Bool} {item : Reader α}
    (h : ∀ ls, starts ls → Proceeds 1 ls item) :
    Proceeds 0 ls (many starts item) :=
  Agrees.recurse (k := ls.length) (fun _ _ _ _ _ hself => agrees_manyBody h (hself ())) () ls
    (Nat.le_refl _)

theorem agrees_separatedBody {separator : TokenKind} {item item' : Reader α}
    (h : Agrees 1 ls item item') {self other : Unit → Reader (List α)}
    (hself : ∀ rest, rest.length < ls.length → Agrees 0 rest (self ()) (other ())) :
    Agrees 1 ls (separatedBody separator item self ())
      (separatedBody separator item' other ()) := by
  refine h.bind fun a rest hrest => .ifAccept (fun rest' hrest' => ?_) (proceeds_pure _)
  exact (hself rest' (by omega)).last fun as => a :: as

theorem agrees_separated {k : Nat} {separator : TokenKind} {item item' : Reader α}
    (h : ∀ ls, ls.length ≤ k → Agrees 1 ls item item') (hk : ls.length ≤ k) :
    Agrees 1 ls (separated separator item) (separated separator item') := by
  refine Agrees.recurse (fun self other _ ls hls hself => ?_) () ls hk
  exact agrees_separatedBody (h ls hls) fun rest hrest => (hself () rest hrest).mono (Nat.zero_le 1)

theorem proceeds_identifier {e : Expectation} (he : e ≠ .endOfRepetition) :
    Proceeds 1 ls (identifier e) := proceeds_expect he

end Steps

end Reader

namespace Grammar

open Reader Lexeme

variable {m n : Nat} {ls : List Lexeme}

/-! ### Names, annotations and types -/

theorem proceeds_enclosed (b : Bracket) : Proceeds 1 ls (enclosed b) := by
  refine ⟨rfl, fun told text rest hrun => ?_, fun told x hrun => ?_⟩
  · obtain ⟨-, o, inner, close, rfl, -⟩ := enclosed_ok hrun
    exact ⟨⟨o :: (inner ++ [close]), by simp⟩, by simp; omega⟩
  · unfold enclosed at hrun
    split at hrun
    · cases hrun
    · cases hrun
      exact ⟨by cases b <;> decide, [], List.nil_suffix, rfl⟩

theorem proceeds_expression : Proceeds 0 ls expression := by
  have happend := splitExpression_append ⟨0, 0, none⟩ ls
  refine ⟨rfl, fun told text rest hrun => ?_, fun told x hrun => ?_⟩
  · obtain ⟨-, inner, rfl, -⟩ := expression_ok hrun
    exact ⟨List.suffix_append _ _, by simp⟩
  · unfold expression at hrun
    split at hrun
    · cases hrun
      exact ⟨by simp, ls, List.suffix_refl _, rfl⟩
    rcases hsplit : splitExpression ⟨0, 0, none⟩ ls with ⟨inner, rest'⟩
    rw [hsplit] at hrun happend
    dsimp only at hrun
    have hsuffix : rest' <:+ ls := ⟨inner, happend⟩
    split at hrun
    · cases hrun
      exact ⟨by simp, rest', hsuffix, rfl⟩
    split at hrun
    · cases hrun
      exact ⟨by simp, rest', hsuffix, rfl⟩
    · cases hrun

theorem proceeds_qualifiedName : Proceeds 1 ls qualifiedName := by
  refine (proceeds_identifier (by decide)).bind fun first rest _ => .see rfl ?_
  obtain ⟨front, hfront, -⟩ := takeSegments_append first rest
  refine ⟨rfl, ?_, ?_⟩
  · rintro told name left ⟨⟩
    refine ⟨⟨front, hfront.symm⟩, ?_⟩
    have := congrArg List.length hfront
    rw [List.length_append] at this
    omega
  · rintro told x ⟨⟩

theorem proceeds_annotationUse (h : startsAnnotationUse ls) :
    Proceeds 1 ls annotationUse := by
  simp only [startsAnnotationUse, Bool.and_eq_true, decide_eq_true_eq] at h
  obtain ⟨l, ls, rfl, -⟩ := kindAt_zero h.1
  refine .skip (by simp) ?_
  refine (proceeds_qualifiedName.mono (Nat.zero_le 1)).bind fun name rest _ => .ifAtKind ?_
    (proceeds_pure _)
  exact ((proceeds_enclosed .paren).mono (Nat.zero_le 1)).last fun args => _

theorem proceeds_annotations : Proceeds 0 ls annotations :=
  proceeds_many fun _ => proceeds_annotationUse

theorem agrees_decorationsBody {self other : Unit → Reader Decorations}
    (hself : ∀ rest, rest.length < ls.length → Agrees 0 rest (self ()) (other ())) :
    Agrees 0 ls (decorationsBody self ()) (decorationsBody other ()) := by
  refine .see rfl (.ite (fun hstarts => ?_) fun _ => ?_)
  · exact (proceeds_annotationUse hstarts).bind fun a rest _ =>
      (hself rest (by omega)).last fun more =>
        { more with annotations := a :: more.annotations }
  · split
    · rename_i k n hmodifier
      obtain ⟨hpos, front, rest, rfl, rfl, -⟩ := modifierAt?_spec hmodifier
      have hlength : ((front ++ rest).drop front.length).length < (front ++ rest).length := by
        simp only [List.drop_left, List.length_append]
        omega
      refine .skip (by simp) ?_
      refine Agrees.mono (n := 0) ?_ (Nat.sub_le 0 _)
      exact (hself _ hlength).last fun more => { more with modifiers := k :: more.modifiers }
    · exact proceeds_pure _

theorem proceeds_decorations : Proceeds 0 ls decorations :=
  Agrees.recurse (k := ls.length) (fun _ _ _ _ _ hself => agrees_decorationsBody (hself ())) () ls
    (Nat.le_refl _)

theorem proceeds_dims : Proceeds 0 ls dims := by
  obtain ⟨front, hfront, -⟩ := countDims_append ls
  refine ⟨rfl, ?_, ?_⟩
  · rintro told k left ⟨⟩
    refine ⟨⟨front, hfront.symm⟩, ?_⟩
    have := congrArg List.length hfront
    rw [List.length_append] at this
    omega
  · rintro told x ⟨⟩

section Types

variable {type type' : Reader TypeExpr}

theorem agrees_typeArgument (h : ∀ ls, ls.length ≤ m → Agrees 1 ls type type')
    (hm : ls.length ≤ m) : Agrees 1 ls (typeArgument type) (typeArgument type') := by
  refine proceeds_annotations.bind fun _ rest hrest => .ifAccept (fun rest hquestion => ?_) ?_
  · refine .ifAccept (fun rest _ => ?_) (.ifAccept (fun rest _ => ?_) (proceeds_pure _))
    · exact ((h rest (by omega)).mono (Nat.zero_le 1)).last _
    · exact ((h rest (by omega)).mono (Nat.zero_le 1)).last _
  · exact (h rest (by omega)).last _

theorem agrees_typeArguments (h : ∀ ls, ls.length ≤ m → Agrees 1 ls type type')
    (hm : ls.length ≤ m + 1) : Agrees 0 ls (typeArguments type) (typeArguments type') := by
  refine .ifAccept (fun rest hless => ?_) (proceeds_pure _)
  refine .ifAccept (fun rest _ => proceeds_pure _) ?_
  have hitem (rest : List Lexeme) (hrest : rest.length ≤ m) := agrees_typeArgument h hrest
  refine (agrees_separated hitem (by omega)).bind fun args rest _ => ?_
  exact ((proceeds_expect (by decide)).mono (Nat.zero_le 1)).last fun _ => args

theorem agrees_typeSegmentsBody (h : ∀ ls, ls.length ≤ m → Agrees 1 ls type type')
    (hm : ls.length ≤ m + 1) {self other : String → Reader (String × List (Argument TypeExpr))}
    (name : String)
    (hself : ∀ name rest, rest.length < ls.length → Agrees 0 rest (self name) (other name)) :
    Agrees 0 ls (typeSegmentsBody type self name) (typeSegmentsBody type' other name) := by
  refine (agrees_typeArguments h hm).bind fun args rest hrest => .see rfl
    (.ite (fun hstarts => ?_) fun _ => proceeds_pure _)
  simp only [startsTypeSegment, Bool.and_eq_true, decide_eq_true_eq] at hstarts
  obtain ⟨l, rest, rfl, -⟩ := kindAt_zero hstarts.1
  rw [List.length_cons] at hrest
  refine .skip (by simp) ?_
  refine proceeds_annotations.bind fun _ left hleft => ?_
  rw [List.drop_succ_cons, List.drop_zero] at hleft
  exact (proceeds_identifier (by decide)).bind fun segment left' hleft' => hself _ left' (by omega)

theorem agrees_typeSegments (h : ∀ ls, ls.length ≤ m → Agrees 1 ls type type')
    (hm : ls.length ≤ m + 1) (name : String) :
    Agrees 0 ls (typeSegments type name) (typeSegments type' name) :=
  Agrees.recurse (fun _ _ name _ hls hself => agrees_typeSegmentsBody h hls name hself) name ls hm

theorem agrees_typeBody {self other : Unit → Reader TypeExpr}
    (h : ∀ rest, rest.length < ls.length → Agrees 1 rest (self ()) (other ())) :
    Agrees 1 ls (typeBody self ()) (typeBody other ()) := by
  refine proceeds_annotations.bind fun _ rest hrest => .ifAtKind ?_ ?_
  · refine (proceeds_expect (by decide)).bind fun name rest _ => ?_
    exact proceeds_dims.last _
  · refine (proceeds_identifier (by decide)).bind fun first left hleft => ?_
    have hsegments := @agrees_typeSegments left.length left _ _
      (fun rest hrest => h rest (by omega)) (by omega) first
    exact hsegments.bind fun named rest _ => proceeds_dims.last _

end Types

theorem proceeds_type : Proceeds 1 ls type :=
  Agrees.recurse (k := ls.length) (fun _ _ _ _ _ hself => agrees_typeBody (hself ())) () ls
    (Nat.le_refl _)

theorem proceeds_typeList : Proceeds 1 ls typeList :=
  agrees_separated (fun _ _ => proceeds_type) (Nat.le_refl _)

theorem proceeds_typesAfter (word : TokenKind) : Proceeds 0 ls (typesAfter word) :=
  .ifAccept (fun _ _ => proceeds_typeList.mono (Nat.zero_le 1)) (proceeds_pure _)

/-! ### Parameters -/

theorem proceeds_typeParameter : Proceeds 1 ls typeParameter := by
  refine proceeds_annotations.bind fun _ rest _ => ?_
  refine (proceeds_identifier (by decide)).bind fun name rest _ => ?_
  refine .ifAccept (fun rest _ => ?_) (proceeds_pure _)
  exact ((agrees_separated (fun _ _ => proceeds_type) (Nat.le_refl _)).mono (Nat.zero_le 1)).last _

theorem proceeds_typeParameters : Proceeds 0 ls typeParameters := by
  refine .ifAccept (fun rest _ => ?_) (proceeds_pure _)
  refine (agrees_separated (fun _ _ => proceeds_typeParameter) (Nat.le_refl _)).bind
    fun params rest _ => ?_
  exact ((proceeds_expect (by decide)).mono (Nat.zero_le 1)).last _

theorem proceeds_parameter : Proceeds 1 ls parameter := by
  refine proceeds_decorations.bind fun d rest _ => ?_
  refine proceeds_type.bind fun t rest _ => ?_
  refine proceeds_annotations.bind fun _ rest _ => ?_
  refine (proceeds_accept _).bind fun isVarargs rest _ => .see rfl ?_
  split
  · rename_i n hreceiver
    obtain ⟨-, front, left, rfl, rfl, -⟩ := receiverLength?_spec hreceiver
    exact .skip (by simp) ((proceeds_pure _).mono (by omega))
  · refine (proceeds_identifier (by decide)).bind fun name rest _ => ?_
    exact proceeds_dims.last _

theorem proceeds_parameters : Proceeds 1 ls parameters := by
  refine (proceeds_expect (by decide)).bind fun _ rest _ => ?_
  refine .ifAccept (fun rest _ => proceeds_pure _) ?_
  refine (agrees_separated (fun _ _ => proceeds_parameter) (Nat.le_refl _)).bind
    fun params rest _ => ?_
  exact ((proceeds_expect (by decide)).mono (Nat.zero_le 1)).last _

/-! ### Members -/

theorem proceeds_tellDoc (doc : Option String) (target : DocTarget) :
    Proceeds 0 ls (tellDoc doc target) := by
  cases doc with
  | none => exact proceeds_pure ()
  | some text => exact proceeds_tell _

theorem proceeds_tellField (doc : Option String) (f : Written.Field) :
    Proceeds 0 ls (tellField doc f) :=
  (proceeds_tellDoc _ _).bind fun _ _ _ => (proceeds_tell _).bind fun _ _ _ => proceeds_tell _

theorem proceeds_tellMethod (doc : Option String) (m : Written.Method) :
    Proceeds 0 ls (tellMethod doc m) :=
  (proceeds_tellDoc _ _).bind fun _ _ _ => (proceeds_tell _).bind fun _ _ _ => proceeds_tell _

theorem proceeds_tellComponents (line : Nat) (components : List Written.Parameter) :
    Proceeds 0 ls (tellComponents line components) := by
  induction components generalizing ls with
  | nil => exact proceeds_pure ()
  | cons p ps ih =>
    unfold tellComponents
    cases p.name with
    | none => exact ih
    | some name => exact (proceeds_tellField _ _).bind fun _ _ _ => ih

theorem proceeds_expressionAfter (k : TokenKind) : Proceeds 0 ls (do
    if ← accept k then pure (some (← expression)) else pure none) :=
  .ifAccept (fun _ _ => proceeds_expression.last some) (proceeds_pure _)

theorem agrees_declaratorsBody (o : Opening) (t : TypeExpr) {self other : String → Reader Unit}
    (name : String)
    (hself : ∀ name rest, rest.length < ls.length → Agrees 0 rest (self name) (other name)) :
    Agrees 0 ls (declaratorsBody o t self name) (declaratorsBody o t other name) := by
  refine proceeds_dims.bind fun extra rest _ => ?_
  refine (proceeds_expressionAfter .equals).bind fun initializer rest _ => ?_
  refine (proceeds_tellField _ _).bind fun _ rest _ => ?_
  refine .ifAccept (fun rest hcomma => ?_) (((proceeds_expect (by decide)).last _).mono (by omega))
  exact (proceeds_identifier (by decide)).bind fun next left _ => hself next left (by omega)

theorem proceeds_declarators (o : Opening) (t : TypeExpr) (name : String) :
    Proceeds 0 ls (declarators o t name) :=
  Agrees.recurse (k := ls.length) (fun _ _ name _ _ hself => agrees_declaratorsBody o t name hself)
    name ls (Nat.le_refl _)

theorem proceeds_methodRest (o : Opening) (typeParams : List (TypeParameter TypeExpr))
    (returnType : Option TypeExpr) (name : String) :
    Proceeds 1 ls (methodRest o typeParams returnType name) := by
  refine proceeds_parameters.bind fun params rest _ => ?_
  refine proceeds_dims.bind fun extra rest _ => ?_
  refine (proceeds_typesAfter _).bind fun throwing rest _ => ?_
  refine (proceeds_expressionAfter (.modifier .isDefault)).bind fun defaultValue rest _ => ?_
  have hbody : Proceeds 0 rest (do
      if ← atKind .leftBrace then pure (some (← enclosed .brace))
      else
        let _ ← expect .semicolon .methodEnd
        pure none) :=
    .ifAtKind (((proceeds_enclosed .brace).mono (Nat.zero_le 1)).last some)
      (((proceeds_expect (by decide)).mono (Nat.zero_le 1)).last fun _ => none)
  exact hbody.bind fun body rest _ => proceeds_tellMethod _ _

theorem proceeds_skip_one {k : TokenKind} (h : kindAt ls 0 = some k) :
    Proceeds 1 ls (skip 1) := by
  obtain ⟨l, rest, rfl, -⟩ := kindAt_zero h
  exact proceeds_skip (by simp)

theorem agrees_constantThen (enum : String) {next next' : Reader Unit}
    (h : ∀ rest, rest.length < ls.length → Agrees 0 rest next next') :
    Agrees 1 ls (constantThen enum next) (constantThen enum next') := by
  refine .see rfl (.see rfl ?_)
  refine proceeds_annotations.bind fun notes rest _ => ?_
  refine (proceeds_identifier (by decide)).bind fun name rest _ => ?_
  have hinitializer : Proceeds 0 rest (do
      if ← atKind .leftParen then pure (some (← enclosed .paren)) else pure none) :=
    .ifAtKind (((proceeds_enclosed .paren).mono (Nat.zero_le 1)).last some) (proceeds_pure _)
  refine hinitializer.bind fun initializer rest _ => ?_
  refine .ifAtKind ((proceeds_enclosed .brace).bind fun _ rest _ => ?_) ?_
  · exact (proceeds_tellField _ _).bind fun _ rest _ => h rest (by omega)
  · exact (proceeds_tellField _ _).bind fun _ rest _ => h rest (by omega)

theorem agrees_constantsBody (enum : String) {self other : Unit → Reader Unit}
    (hself : ∀ rest, rest.length < ls.length → Agrees 0 rest (self ()) (other ())) :
    Agrees 0 ls (constantsBody enum self ()) (constantsBody enum other ()) := by
  rw [constantsBody_eq, constantsBody_eq]
  refine .see rfl ?_
  split
  · rename_i hsemicolon
    exact (proceeds_skip_one hsemicolon).mono (Nat.zero_le 1)
  · exact proceeds_pure ()
  · exact proceeds_pure ()
  · refine (agrees_constantThen enum fun rest hrest => ?_).mono (Nat.zero_le 1)
    refine .ifAccept (fun rest' _ => hself rest' (by omega)) (.see rfl ?_)
    split
    · rename_i hsemicolon
      exact (proceeds_skip_one hsemicolon).mono (Nat.zero_le 1)
    · exact proceeds_pure ()
    · exact proceeds_fail (by decide)

theorem proceeds_constants (enum : String) : Proceeds 0 ls (constants enum) :=
  Agrees.recurse (k := ls.length) (fun _ _ _ _ _ hself => agrees_constantsBody enum (hself ()))
    () ls (Nat.le_refl _)

/-! ### Type declarations -/

section Classes

variable {readClass readClass' : ReadClass}

theorem proceeds_opening : Proceeds 0 ls opening :=
  .see rfl (.see rfl (proceeds_decorations.last _))

theorem agrees_member (h : ∀ start rest, rest.length ≤ ls.length →
      Agrees 1 rest (readClass start) (readClass' start)) (owner : ClassKind)
    (className : String) :
    Agrees 1 ls (member readClass owner className) (member readClass' owner className) := by
  rw [member_eq, member_eq]
  refine proceeds_opening.bind fun o rest hrest => .see rfl ?_
  split
  · exact h _ rest hrest
  refine proceeds_typeParameters.bind fun typeParams rest _ => .see rfl ?_
  refine .ite (fun hname => ?_) fun _ => .ite (fun hname => ?_) fun _ => ?_
  · simp only [Bool.and_eq_true] at hname
    obtain ⟨l, hl, -⟩ := isWordAt_eq hname.1
    obtain ⟨hpos, -⟩ := List.getElem?_eq_some_iff.mp hl
    exact .skip hpos ((proceeds_methodRest _ _ _ _).mono (Nat.zero_le 1))
  · simp only [Bool.and_eq_true] at hname
    obtain ⟨l, hl, -⟩ := isWordAt_eq hname.1.1
    obtain ⟨hpos, -⟩ := List.getElem?_eq_some_iff.mp hl
    exact .skip hpos (((proceeds_enclosed .brace).mono (Nat.zero_le 1)).last _)
  · refine proceeds_type.bind fun t rest _ => ?_
    refine (proceeds_identifier (by decide)).bind fun name rest _ => .ifAtKind ?_ ?_
    · exact (proceeds_methodRest _ _ _ _).mono (Nat.zero_le 1)
    · exact (proceeds_declarators _ _ _).mono (by omega)

theorem agrees_membersBody (h : ∀ start rest, rest.length ≤ ls.length →
      Agrees 1 rest (readClass start) (readClass' start)) (owner : ClassKind)
    (className : String) {self other : Unit → Reader Unit}
    (hself : ∀ rest, rest.length < ls.length → Agrees 0 rest (self ()) (other ())) :
    Agrees 0 ls (membersBody readClass owner className self ())
      (membersBody readClass' owner className other ()) := by
  rw [membersBody_eq, membersBody_eq]
  refine .see rfl ?_
  split
  · exact proceeds_fail (by decide)
  · rename_i hclose
    exact (proceeds_skip_one hclose).mono (Nat.zero_le 1)
  · rename_i hsemicolon
    exact (proceeds_skip_one hsemicolon).bind fun _ rest hrest => hself rest (by omega)
  · exact (proceeds_enclosed .brace).bind fun _ rest hrest => hself rest (by omega)
  · refine .ite (fun _ => ?_) fun _ => ?_
    · refine ((proceeds_skip_one ‹_›).mono (Nat.zero_le 1)).bind fun _ rest hrest => ?_
      exact (proceeds_enclosed .brace).bind fun _ rest hrest => hself rest (by omega)
    · exact (agrees_member h owner className).bind fun _ rest hrest => hself rest (by omega)

theorem proceeds_extendedTypes (kind : ClassKind) :
    Proceeds 0 ls (extendedTypes kind) := by
  cases kind with
  | plainClass =>
    exact .ifAccept (fun _ _ => (proceeds_type.mono (Nat.zero_le 1)).last fun t => [t])
      (proceeds_pure _)
  | interfaceType => exact proceeds_typesAfter _
  | enumType | annotationType | recordType => exact proceeds_pure _

theorem proceeds_permittedTypes : Proceeds 0 ls permittedTypes := by
  refine .see rfl (.ite (fun hword => ?_) fun _ => proceeds_pure _)
  obtain ⟨l, hl, -⟩ := isWordAt_eq hword
  obtain ⟨hpos, -⟩ := List.getElem?_eq_some_iff.mp hl
  exact .skip hpos (proceeds_typeList.mono (Nat.zero_le 1))

theorem proceeds_skip_any (k : Nat) : Proceeds 0 ls (skip k) := by
  refine ⟨rfl, ?_, ?_⟩
  · rintro told b left ⟨⟩
    exact ⟨List.drop_suffix k ls, by rw [List.length_drop]; omega⟩
  · rintro told x ⟨⟩

theorem proceeds_classOpening (kind : ClassKind) (o : Opening) :
    Proceeds 1 ls (classOpening kind o) := by
  refine (proceeds_skip_any _).bind fun _ rest _ => ?_
  refine (proceeds_identifier (by decide)).bind fun name rest _ => ?_
  refine proceeds_typeParameters.bind fun typeParams rest _ => ?_
  have hcomponents : Proceeds 0 rest (if kind = .recordType then parameters else pure []) :=
    .ite (fun _ => proceeds_parameters.mono (Nat.zero_le 1)) fun _ => proceeds_pure _
  refine hcomponents.bind fun components rest _ => ?_
  refine (proceeds_extendedTypes kind).bind fun extending rest _ => ?_
  refine (proceeds_typesAfter _).bind fun implementing rest _ => ?_
  refine proceeds_permittedTypes.bind fun permitting rest _ => ?_
  refine (proceeds_tellDoc _ _).bind fun _ rest _ => ?_
  refine (proceeds_tell _).bind fun _ rest _ => ?_
  have hend (left : List Lexeme) :
      Proceeds 0 left (expect .leftBrace .classOpening >>= fun _ => pure name) :=
    ((proceeds_expect (by decide)).last fun _ => name).mono (Nat.zero_le 1)
  refine .ite (fun _ => ?_) fun _ => hend rest
  exact (proceeds_tellComponents _ _).bind fun _ left _ =>
    (proceeds_tellMethod _ _).bind fun _ left _ => hend left

theorem proceeds_constantsOf (kind : ClassKind) (name : String) :
    Proceeds 0 ls (constantsOf kind name) :=
  .ite (fun _ => proceeds_constants name) fun _ => proceeds_pure ()

theorem agrees_classBodyOf {self other : ReadClass} (start : ClassKind × Opening)
    (hself : ∀ start rest, rest.length < ls.length → Agrees 1 rest (self start) (other start)) :
    Agrees 1 ls (classBodyOf self start) (classBodyOf other start) := by
  obtain ⟨kind, o⟩ := start
  rw [classBodyOf_eq, classBodyOf_eq]
  refine (proceeds_classOpening kind o).bind fun name rest hrest => ?_
  refine (proceeds_constantsOf kind name).bind fun _ rest hleft => ?_
  have hmembers : Agrees 0 rest (Reader.recurse (membersBody self kind name) ())
      (Reader.recurse (membersBody other kind name) ()) :=
    .recurse (k := rest.length) (fun round round' _ ls hls hround =>
      agrees_membersBody (fun start left hle => hself start left (by omega)) kind name (hround ()))
      () rest (Nat.le_refl _)
  exact hmembers.bind fun _ _ _ => proceeds_tell _

theorem proceeds_classDeclaration (start : ClassKind × Opening) :
    Proceeds 1 ls (classDeclaration start) :=
  Agrees.recurse (k := ls.length) (fun _ _ start _ _ hself => agrees_classBodyOf start hself)
    start ls (Nat.le_refl _)

theorem proceeds_typeDeclaration : Proceeds 1 ls typeDeclaration := by
  refine proceeds_opening.bind fun o rest _ => .see rfl ?_
  split
  · exact proceeds_classDeclaration _
  · exact proceeds_fail (by decide)

end Classes

/-! ### Source units -/

/-- A reader that is gone back behind unless a lexeme of a kind follows. -/
theorem proceeds_orBack {k : TokenKind} {p : Reader α} {f : α → Reader Unit} (hsilent : Silent p)
    (hp : Proceeds 0 ls p) (hf : ∀ a rest, Proceeds 0 rest (f a)) :
    Proceeds 0 ls (p >>= fun a => atKind k >>= fun b => if b then f a else continueWith ls) := by
  rcases hfirst : p ls with ⟨first, x | ⟨a, middle⟩⟩
  · have hrun (f : α → Reader Unit) : (p >>= f) ls = (first, .error x) := by
      show andThen p f ls = _
      simp only [andThen, hfirst]
    refine ⟨rfl, fun told b rest h => ?_, fun told y h => ?_⟩
    · rw [hrun] at h
      cases h
    · rw [hrun] at h
      cases h
      exact hp.stopped _ _ hfirst
  · obtain rfl : first = [] := by simpa [hfirst] using hsilent ls
    obtain ⟨hsuffix, hlength⟩ := hp.taken _ _ _ hfirst
    by_cases hk : kindAt middle 0 = some k
    · have hrun : (p >>= fun a => atKind k >>= fun b => if b then f a else continueWith ls) ls =
          f a middle := by
        rw [bind_quiet hfirst, bind_quiet rfl, decide_eq_true hk, if_pos rfl]
      have hnext := hf a middle
      refine ⟨rfl, fun told b rest h => ?_, fun told x h => ?_⟩
      · obtain ⟨hsuffix', hlength'⟩ := hnext.taken told b rest (hrun ▸ h)
        exact ⟨hsuffix'.trans hsuffix, by omega⟩
      · obtain ⟨hexpected, rest, hsuffix', hfound⟩ := hnext.stopped told x (hrun ▸ h)
        exact ⟨hexpected, rest, hsuffix'.trans hsuffix, hfound⟩
    · have hrun : (p >>= fun a => atKind k >>= fun b => if b then f a else continueWith ls) ls =
          ([], .ok ((), ls)) := by
        rw [bind_quiet hfirst, bind_quiet rfl, decide_eq_false hk, if_neg Bool.false_ne_true]
        rfl
      refine ⟨rfl, fun told b rest h => ?_, fun told x h => ?_⟩
      · rw [hrun] at h
        cases h
        exact ⟨List.suffix_refl _, by omega⟩
      · rw [hrun] at h
        cases h

theorem proceeds_packageDeclaration : Proceeds 0 ls packageDeclaration := by
  refine .see rfl (.see rfl (.see rfl ?_))
  refine proceeds_orBack silent_annotations proceeds_annotations fun notes rest => .see rfl ?_
  refine (proceeds_tellDoc _ _).bind fun _ rest _ => (proceeds_skip_any 1).bind fun _ rest _ => ?_
  refine (proceeds_qualifiedName.mono (Nat.zero_le 1)).bind fun name rest _ => ?_
  exact ((proceeds_expect (by decide)).mono (Nat.zero_le 1)).bind fun _ _ _ => proceeds_tell _

theorem agrees_importedNameBody {self other : String → Reader (String × Bool)} (name : String)
    (hself : ∀ name rest, rest.length < ls.length → Agrees 0 rest (self name) (other name)) :
    Agrees 0 ls (importedNameBody self name) (importedNameBody other name) := by
  refine .ifAccept (fun rest hrest => .see rfl (.ite (fun hstar => ?_) fun _ => ?_))
    (proceeds_pure _)
  · exact (proceeds_skip_any 1).last _
  · exact (proceeds_identifier (by decide)).bind fun part left _ => hself _ left (by omega)

theorem proceeds_importDeclaration : Proceeds 1 ls importDeclaration := by
  refine .see rfl ((proceeds_skip_any 1).bind fun _ rest _ => ?_)
  refine (proceeds_accept _).bind fun isStatic rest _ => ?_
  refine (proceeds_identifier (by decide)).bind fun first rest _ => ?_
  have hname : Proceeds 0 rest (Reader.recurse importedNameBody first) :=
    .recurse (k := rest.length) (fun _ _ name _ _ hself => agrees_importedNameBody name hself)
      first rest (Nat.le_refl _)
  refine hname.bind fun named rest _ => ?_
  exact ((proceeds_expect (by decide)).mono (Nat.zero_le 1)).bind fun _ _ _ => proceeds_tell _

theorem proceeds_moduleDeclaration : Proceeds 1 ls moduleDeclaration := by
  refine .see rfl (.pass (m := 0) rfl (List.dropWhile_suffix _) ?_ (.ifAtKind ?_ ?_))
  · exact (List.dropWhile_suffix _).length_le
  · exact (proceeds_enclosed .brace).last _
  · exact proceeds_fail (by decide)

theorem agrees_declarationsBody {self other : Unit → Reader Unit}
    (hself : ∀ rest, rest.length < ls.length → Agrees 0 rest (self ()) (other ())) :
    Agrees 0 ls (declarationsBody self ()) (declarationsBody other ()) := by
  refine .see rfl (.ite (fun _ => proceeds_pure _) fun _ => ?_)
  have hnext {item : Reader Unit} (h : Proceeds 1 ls item) :
      Agrees 0 ls (item >>= fun _ => self ()) (item >>= fun _ => other ()) :=
    h.bind fun _ rest hrest => hself rest (by omega)
  refine .ite (fun hsemicolon => hnext (proceeds_skip_one hsemicolon)) fun _ => ?_
  exact .ite (fun _ => hnext proceeds_moduleDeclaration) fun _ => hnext proceeds_typeDeclaration

theorem proceeds_compilationUnit : Proceeds 0 ls compilationUnit := by
  refine (proceeds_tell _).bind fun _ rest _ => ?_
  refine proceeds_packageDeclaration.bind fun _ rest _ => ?_
  refine (proceeds_many fun _ _ => proceeds_importDeclaration).bind fun _ rest _ => ?_
  have hdeclarations : Proceeds 0 rest (Reader.recurse declarationsBody ()) :=
    .recurse (k := rest.length) (fun _ _ _ _ _ hself => agrees_declarationsBody (hself ()))
      () rest (Nat.le_refl _)
  exact hdeclarations.bind fun _ _ _ => proceeds_tell _

end Grammar

end JavaModel
