import JavaModel.Proofs.Grammar.Ending
import JavaModel.Proofs.Grammar.TakingClasses

/-! No declaration at the outermost level is lost: outside all braces and parentheses as many words
begin a declaration as classes are told. What a source unit passes over unread is the head of a
module. Whether a module begins is found by looking past annotations of one word each, for which
`@interface` is taken as well; an annotation type that is lost this way is left out here. -/

namespace JavaModel

namespace Grammar

open Reader Lexeme

variable {α β : Type} {ls : List Lexeme} {C D E : List Event → List Lexeme → Prop}

/-! ### Modules -/

/-- Pairs of an at sign and another lexeme in front of others: what stands behind the at signs, and
what stands behind the pairs. -/
def marks : List Lexeme → List Lexeme × List Lexeme
  | a :: n :: ls =>
    if a.kind = .atSign then (n :: (marks ls).1, (marks ls).2) else ([], a :: n :: ls)
  | ls => ([], ls)

/-- Whether the words of a module declaration stand next. -/
def saysModule (ls : List Lexeme) : Bool :=
  isWordAt ls 0 "module" || (isWordAt ls 0 "open" && isWordAt ls 1 "module")

/-- A module declaration stands next, behind annotations of one word. -/
def BeginsModule (ls : List Lexeme) : Prop :=
  saysModule (marks ls).2 ∧ ∀ n ∈ (marks ls).1, n.kind ≠ .interfaceWord

/-- The words of a module declaration stand behind an `@interface`, as if that were an annotation. -/
def HidesType (ls : List Lexeme) : Prop :=
  saysModule (marks ls).2 ∧ ∃ n ∈ (marks ls).1, n.kind = .interfaceWord

instance (ls : List Lexeme) : Decidable (BeginsModule ls) :=
  inferInstanceAs (Decidable (_ ∧ ∀ n ∈ (marks ls).1, n.kind ≠ .interfaceWord))

instance (ls : List Lexeme) : Decidable (HidesType ls) :=
  inferInstanceAs (Decidable (_ ∧ ∃ n ∈ (marks ls).1, n.kind = .interfaceWord))

theorem startsModule_eq : (ls : List Lexeme) → startsModule ls = saysModule (marks ls).2
  | [] => rfl
  | [l] => by simp [startsModule, marks, saysModule, isWordAt]
  | a :: b :: ls => by
    rw [startsModule, marks]
    split
    · exact startsModule_eq ls
    · rfl

/-- A module is looked for where one begins, and where an annotation type is taken for one. -/
theorem startsModule_cases (h : startsModule ls) : BeginsModule ls ∨ HidesType ls := by
  rw [startsModule_eq] at h
  by_cases hhidden : ∃ n ∈ (marks ls).1, n.kind = .interfaceWord
  · exact .inr ⟨h, hhidden⟩
  · exact .inl ⟨h, fun n hn hkind => hhidden ⟨n, hn, hkind⟩⟩

/-- Lexemes behind which a declaration may begin: none, or one that has ended outside all braces and
parentheses. -/
def Precedes (front : List Lexeme) : Prop := Nested front ∧ (front = [] ∨ Ends front)

instance (front : List Lexeme) : Decidable (Precedes front) :=
  inferInstanceAs (Decidable (Nested front ∧ (front = [] ∨ Ends front)))

/-- In the head of each module declaration, up to its opening brace, braces and parentheses nest, and
no word that begins another declaration stands outside these. -/
def PlainHeads (ls : List Lexeme) : Prop :=
  ∀ i < ls.length, Precedes (ls.take i) → BeginsModule (ls.drop i) →
    Nested ((ls.drop i).takeWhile (·.kind ≠ .leftBrace)) ∧
      outerWords 0 0 (((ls.drop i).takeWhile (·.kind ≠ .leftBrace)).map kind) = 0

/-- No annotation type is taken for a module. -/
def NoneHidden (ls : List Lexeme) : Prop :=
  ∀ i < ls.length, Precedes (ls.take i) → ¬ HidesType (ls.drop i)

instance (ls : List Lexeme) : Decidable (PlainHeads ls) :=
  inferInstanceAs (Decidable (∀ i < ls.length, _ → _ → _ ∧ _))

instance (ls : List Lexeme) : Decidable (NoneHidden ls) :=
  inferInstanceAs (Decidable (∀ i < ls.length, _ → ¬ HidesType (ls.drop i)))

theorem takes_moduleDeclaration (hnested : Nested (ls.takeWhile (·.kind ≠ .leftBrace)))
    (hwords : outerWords 0 0 ((ls.takeWhile (·.kind ≠ .leftBrace)).map kind) = 0) :
    Takes ls moduleDeclaration Declared := by
  have hgroup (ls : List Lexeme) : Takes ls (do
      if ← atKind .leftBrace then
        let _ ← enclosed .brace
      else fail .moduleOpening) Declared := by
    refine takes_ifAtKind (fun hbrace => ?_) (takes_fail _)
    refine ((takes_group (b := .brace) hbrace).mono ?_).last fun _ => ()
    rintro told taken ⟨hquiet, l, hl, hclose⟩
    exact ⟨⟨0, hquiet⟩, l, hl, .inr hclose⟩
  intro told b rest htidy hrun hnest
  have hlook : lookAhead ls = ([], .ok (ls, ls)) := rfl
  have hmove : continueWith (ls.dropWhile (·.kind ≠ .leftBrace)) ls =
      ([], .ok ((), ls.dropWhile (·.kind ≠ .leftBrace))) := rfl
  unfold moduleDeclaration at hrun
  rw [bind_quiet hlook, bind_quiet hmove] at hrun
  have happend := List.takeWhile_append_dropWhile (p := (·.kind ≠ .leftBrace)) (l := ls)
  rw [← happend] at htidy
  obtain ⟨taken, hls, hdeclared⟩ := hgroup _ told b rest htidy.behind hrun hnest
  refine ⟨ls.takeWhile (·.kind ≠ .leftBrace) ++ taken, ?_, ?_⟩
  · rw [List.append_assoc, ← hls]
    exact happend.symm
  · exact Declared.after_quiet [] _ told taken ⟨⟨hnested, by simp⟩, by simp, hwords⟩ hdeclared

/-! ### The head of a unit -/

/-- A clause of the head of a unit: no declaration, with a semicolon behind it. -/
def Clause (told : List Event) (taken : List Lexeme) : Prop := Quiet told taken ∧ Ends taken

theorem Clause.after_quiet (t : List Event) (x : List Lexeme) (t' : List Event)
    (x' : List Lexeme) (h : Quiet t x) (h' : Clause t' x') : Clause (t ++ t') (x ++ x') :=
  ⟨Outside.after_quiet t x t' x' h h'.1, h'.2.append x⟩

/-- The end of a clause, and what is told of it. -/
theorem takes_clauseEnd {exp : Expectation} {e : Event}
    (he : ∀ depth more, outermostClasses depth (e :: more) = outermostClasses depth more) :
    Takes ls (expect .semicolon exp >>= fun _ => tell e) Clause := by
  refine (takes_upto (C := fun told taken => told = [] ∧ taken = []) exp ⟨rfl, rfl⟩).andThen ?_
    fun _ rest => takes_event e
  rintro _ _ _ _ ⟨_, close, rfl, hclose, rfl, rfl⟩ ⟨rfl, rfl⟩
  have htell : Quiet [e] [] := ⟨⟨nested_nil, fun depth => he (depth + 1)⟩, by simp [he], rfl⟩
  have hplain : isPlain close.kind := by
    rw [hclose]
    rfl
  exact ⟨(quiet_singleton hplain).append htell, close, rfl, .inl hclose⟩

/-- The head of a unit, as far as it is there. -/
def Prologue (told : List Event) (taken : List Lexeme) : Prop :=
  Quiet told taken ∧ (taken = [] ∨ Ends taken)

theorem Clause.prologue {told : List Event} {taken : List Lexeme} (h : Clause told taken) :
    Prologue told taken := ⟨h.1, .inr h.2⟩

theorem prologue_nil : Prologue [] [] := ⟨quiet_nil, .inl rfl⟩

theorem Prologue.append (t : List Event) (x : List Lexeme) (t' : List Event) (x' : List Lexeme)
    (h : Prologue t x) (h' : Prologue t' x') : Prologue (t ++ t') (x ++ x') := by
  refine ⟨Outside.after_quiet t x t' x' h.1 h'.1, ?_⟩
  rcases h'.2 with rfl | hends
  · rw [List.append_nil]
    exact h.2
  · exact .inr (hends.append x)

/-- A reader that is gone back behind unless a lexeme of a kind follows. -/
theorem takes_orBack {k : TokenKind} {p : Reader α} {f : α → Reader Unit} (hsilent : Silent p)
    (hnil : C [] []) (hp : Takes ls p D)
    (hC : ∀ t x t' x', D t x → E t' x' → C (t ++ t') (x ++ x'))
    (hf : ∀ a rest, kindAt rest 0 = some k → Takes rest (f a) E) :
    Takes ls (p >>= fun a => atKind k >>= fun b => if b then f a else continueWith ls) C := by
  intro told b rest htidy hrun hnest
  obtain ⟨a, middle, hfirst, hmore⟩ := hsilent.bind_ok hrun
  rw [bind_quiet rfl] at hmore
  by_cases hk : kindAt middle 0 = some k
  · rw [decide_eq_true hk, if_pos rfl] at hmore
    obtain ⟨taken, rfl, hD⟩ := hp [] a middle htidy hfirst (List.forall_mem_nil _)
    obtain ⟨taken', rfl, hE⟩ := hf a middle hk told b rest htidy.behind hmore hnest
    exact ⟨taken ++ taken', (List.append_assoc ..).symm, hC [] taken told taken' hD hE⟩
  · rw [decide_eq_false hk, if_neg Bool.false_ne_true] at hmore
    cases hmore
    exact ⟨[], rfl, hnil⟩

/-- What is told without a lexeme being taken goes before what is told later. -/
theorem takes_say {p : Reader α} {f : α → Reader β} {t : List Event} {a : α}
    (hp : p ls = (t, .ok (a, ls))) (ht : Quiet t [])
    (hC : ∀ t x t' x', Quiet t x → C t' x' → C (t ++ t') (x ++ x')) (h : Takes ls (f a) C) :
    Takes ls (p >>= f) C := by
  intro told b rest htidy hrun hnest
  obtain ⟨first, a', middle, more, hfirst, hmore, rfl⟩ := bind_ok hrun
  rw [hp] at hfirst
  cases hfirst
  obtain ⟨taken, hls, htaken⟩ := h more b rest htidy hmore (List.forall_mem_append.mp hnest).2
  exact ⟨taken, hls, hC t [] more taken ht htaken⟩

theorem takes_afterDoc (doc : Option String) (target : DocTarget) {p : Reader α}
    (hC : ∀ t x t' x', Quiet t x → C t' x' → C (t ++ t') (x ++ x')) (hp : Takes ls p C) :
    Takes ls (tellDoc doc target >>= fun _ => p) C := by
  cases doc with
  | none => exact takes_see rfl hp
  | some text =>
    refine takes_say rfl ?_ hC hp
    exact ⟨⟨nested_nil, fun _ _ => rfl⟩, fun _ => (Nat.zero_add _).symm, rfl⟩

theorem takes_packageDeclaration : Takes ls packageDeclaration Prologue := by
  refine takes_look (takes_see rfl (takes_see rfl ?_))
  refine takes_orBack (E := Clause) silent_annotations prologue_nil takes_annotations
    (fun t x t' x' h h' => (Clause.after_quiet t x t' x' h h').prologue) fun notes rest hword => ?_
  obtain ⟨l, rest, rfl, hl⟩ := kindAt_zero hword
  refine takes_see rfl (takes_afterDoc _ _ Clause.after_quiet ?_)
  refine takes_behind (hl ▸ rfl) Clause.after_quiet ?_
  refine takes_qualifiedName.andThen Clause.after_quiet fun name rest => ?_
  exact takes_clauseEnd fun _ _ => rfl

theorem takes_importedName (name : String) : Takes ls (recurse importedNameBody name) Quiet := by
  refine Takes.recurse (fun self hself name ls => ?_) name ls
  refine (takes_accept rfl).andThen Outside.after_quiet fun _ rest =>
    .ite (fun _ => takes_look (.ite (fun hstar => ?_) fun _ => ?_)) fun _ => takes_pure _
  · simp only [Bool.and_eq_true, decide_eq_true_eq] at hstar
    obtain ⟨l, rest, rfl, hl⟩ := kindAt_zero hstar.1
    exact takes_behind (hl ▸ rfl) Outside.after_quiet (takes_pure _)
  · exact (takes_identifier _).andThen Outside.after_quiet fun part rest => hself _ rest

theorem takes_importDeclaration (h : kindAt ls 0 = some .importWord) :
    Takes ls importDeclaration Clause := by
  obtain ⟨l, ls, rfl, hl⟩ := kindAt_zero h
  refine takes_see rfl (takes_behind (hl ▸ rfl) Clause.after_quiet ?_)
  refine (takes_accept rfl).andThen Clause.after_quiet fun isStatic rest => ?_
  refine (takes_identifier _).andThen Clause.after_quiet fun first rest => ?_
  refine (takes_importedName _).andThen Clause.after_quiet fun named rest => ?_
  exact takes_clauseEnd fun _ _ => rfl

/-! ### Source units -/

/-- What is told of the declarations of a unit, and what they take. -/
def Balanced (told : List Event) (taken : List Lexeme) : Prop := ∃ n, Outside n n told taken

/-- At the outermost level declarations follow each other, and no word that begins one is lost. -/
theorem takes_declarations {unit front ls : List Lexeme} (hheads : PlainHeads unit)
    (hhidden : NoneHidden unit) (hunit : unit = front ++ ls) (hfront : Precedes front) :
    Takes ls (recurse declarationsBody ()) Balanced := by
  refine Takes.recurse_at (A := fun _ ls => ∃ front, unit = front ++ ls ∧ Precedes front)
    (fun self hself _ ls hls => takes_look ?_) () ls ⟨front, hunit, hfront⟩
  obtain ⟨front, rfl, hfront⟩ := hls
  have hnext {item : Reader Unit} (h : Takes ls item Declared) :
      Takes ls (item >>= self) Balanced := by
    refine h.bind (D := Balanced) (fun told _ taken rest hls hdeclared => ?_) ?_
    · obtain ⟨⟨n, houtside⟩, hends⟩ := hdeclared
      refine hself () rest ⟨front ++ taken, by rw [hls, List.append_assoc], ?_, ?_⟩
      · exact hfront.1.append houtside.nested
      · exact .inr (hends.append front)
    · rintro t x t' x' ⟨⟨n, h⟩, _⟩ ⟨n', h'⟩
      exact ⟨n + n', h.append h'⟩
  refine .ite (fun _ => (takes_pure ()).mono fun _ _ h => ⟨0, h⟩) fun hne => ?_
  refine .ite (fun hsemicolon => hnext ?_) fun _ => .ite (fun hmodule => hnext ?_) fun _ =>
    hnext takes_typeDeclaration
  · obtain ⟨l, rest, rfl, hl⟩ := kindAt_zero hsemicolon
    rintro told b rest' - ⟨⟩ -
    exact ⟨[l], rfl, ⟨0, quiet_singleton (hl ▸ rfl)⟩, l, rfl, .inl hl⟩
  · have hpos : 0 < ls.length := by
      cases ls with
      | nil => simp at hne
      | cons l ls => simp
    have hplace : front.length < (front ++ ls).length := by
      rw [List.length_append]
      omega
    have hhead := hheads front.length hplace
    have hhidden := hhidden front.length hplace
    rw [List.take_left, List.drop_left] at hhead hhidden
    obtain ⟨hnested, hwords⟩ :=
      hhead hfront ((startsModule_cases hmodule).resolve_right (hhidden hfront))
    exact takes_moduleDeclaration hnested hwords

theorem takes_compilationUnit (hheads : PlainHeads ls) (hhidden : NoneHidden ls) :
    Takes ls compilationUnit Balanced := by
  have hafter (t x t' x') (h : Quiet t x) (h' : Balanced t' x') :
      Balanced (t ++ t') (x ++ x') :=
    have ⟨n, hn⟩ := h'
    ⟨n, Outside.after_quiet t x t' x' h hn⟩
  have hprologue (t x t' x') (h : Prologue t x) (h' : Balanced t' x') :
      Balanced (t ++ t') (x ++ x') := hafter t x t' x' h.1 h'
  have himports (ls : List Lexeme) :
      Takes ls (many (fun ls => kindAt ls 0 = some .importWord) importDeclaration) Prologue :=
    takes_many prologue_nil Prologue.append fun _ h =>
      (takes_importDeclaration (of_decide_eq_true h)).mono fun _ _ h => h.prologue
  have hbegin : Quiet [.beginSource] [] :=
    ⟨⟨nested_nil, fun _ _ => rfl⟩, fun _ => (Nat.zero_add _).symm, rfl⟩
  refine takes_say rfl hbegin hafter ?_
  refine takes_packageDeclaration.bind (D := Balanced) (fun t _ x rest hls hpackage => ?_) hprologue
  refine (himports rest).bind (D := Balanced) (fun t' _ x' rest' hls' himport => ?_) hprologue
  -- The declarations begin behind a head that is nested.
  have hhead : Prologue (t ++ t') (x ++ x') := Prologue.append t x t' x' hpackage himport
  have hunit : ls = (x ++ x') ++ rest' := by rw [hls, hls', List.append_assoc]
  refine (takes_declarations hheads hhidden hunit ⟨hhead.1.nested, hhead.2⟩).andThen ?_
    fun _ rest => takes_tell (e := .endSource) fun _ _ => rfl
  rintro t x t' x' ⟨n, h⟩ h'
  exact ⟨n, h.append h'⟩

end Grammar

open Grammar in
/-- No declaration at the outermost level is lost. In a text that follows the grammar, as many
classes, interfaces and enums are told outside all others as words that begin one stand outside all
braces and parentheses, if these nest in the text, in each expression told and in the head of each
module, if no such word stands in the head of a module, and if no annotation type is taken for a
module. -/
theorem outermost_told {text : String} (hparsed : (parse text).error = none)
    (hnested : Nested (lexemes text)) (hexpressions : ExpressionsNest (parse text).events)
    (hheads : PlainHeads (lexemes text)) (hhidden : NoneHidden (lexemes text)) :
    outermostClasses 0 (parse text).events =
      outerWords 0 0 ((lex text).tokens.map Token.kind) := by
  rw [← outerWords_ofTokens 0 0 "" none]
  obtain ⟨rest, hrun⟩ := compilationUnit_of_parse hparsed
  obtain rfl := exhausts_compilationUnit _ _ _ _ hrun
  have htidy : Tidy (lexemes text) := ⟨⟨[], hnested⟩, text, List.suffix_refl _⟩
  obtain ⟨taken, htaken, n, houtside⟩ :=
    takes_compilationUnit hheads hhidden _ _ _ htidy hrun hexpressions
  have hclasses := houtside.classes []
  rw [List.append_nil] at htaken hclasses
  rw [hclasses]
  show n + 0 = outerWords 0 0 ((lexemes text).map Lexeme.kind)
  rw [htaken, houtside.words]
  rfl

/-- A module is passed over among classes, a record and an annotation type. In a body a bracket
stands between comparisons. -/
def moduleSample : String :=
  "package p.module; @A(\x7b1\x7d) class B<T> \x7b int[] f = g.<int[]>h(x[0]); " ++
    "boolean c() \x7b return i < a[j > m ? 0 : 1]; \x7d \x7d @A open module m \x7b \x7d " ++
    "record R(int x) \x7b \x7d @interface J \x7b int v() default 1; \x7d"

open Grammar in
theorem outermost_told_moduleSample :
    (parse moduleSample).error = none ∧ Nested (lexemes moduleSample) ∧
      ExpressionsNest (parse moduleSample).events ∧ PlainHeads (lexemes moduleSample) ∧
      NoneHidden (lexemes moduleSample) ∧ outermostClasses 0 (parse moduleSample).events =
        outerWords 0 0 ((lex moduleSample).tokens.map Token.kind) := by
  have h : (parse moduleSample).error = none ∧ Nested (lexemes moduleSample) ∧
      ExpressionsNest (parse moduleSample).events ∧ PlainHeads (lexemes moduleSample) ∧
      NoneHidden (lexemes moduleSample) := by
    decide +kernel
  obtain ⟨hparsed, hnested, hexpressions, hheads, hhidden⟩ := h
  exact ⟨hparsed, hnested, hexpressions, hheads, hhidden,
    outermost_told hparsed hnested hexpressions hheads hhidden⟩

/-- A text follows the grammar, tells so many classes, interfaces and enums outside all others, and has
so many words that begin one outside all braces and parentheses. -/
def TellsOutermost (text : String) (classes words : Nat) : Prop :=
  (parse text).error = none ∧ outermostClasses 0 (parse text).events = classes ∧
    Grammar.outerWords 0 0 ((lex text).tokens.map Token.kind) = words

instance (text : String) (classes words : Nat) : Decidable (TellsOutermost text classes words) :=
  inferInstanceAs (Decidable (_ ∧ _ ∧ _))

/-- A class in the head of a module. -/
def lostText : String := "module class A \x7b\x7d"

/-- Parentheses in the head of a module that are closed in that of another one. -/
def crossedHeads : String := "module ( \x7b\x7d class A \x7b\x7d module ) \x7b\x7d"

/-- Raw text with a brace that is closed in other raw text. -/
def crossedText : String := "@A(\x7b) class B \x7b\x7d @C(\x7d) class D \x7b\x7d"

/-- An expression that goes on where a square bracket is open, up to one that closes more. -/
def crossedExpressions : String :=
  "class A \x7b int x = ([) ; \x7d class B \x7b int y = (]) ; \x7d"

/-- An annotation type whose name is taken for the word of a module. -/
def hiddenText : String := "@interface module \x7b\x7d"

open Grammar in
/-- Each of the conditions can fail alone, and then what is told is not what the words say. -/
theorem outermost_lost :
    (TellsOutermost lostText 0 1 ∧ Nested (lexemes lostText) ∧
      ExpressionsNest (parse lostText).events ∧ NoneHidden (lexemes lostText)) ∧
    (TellsOutermost crossedHeads 1 0 ∧ Nested (lexemes crossedHeads) ∧
      ExpressionsNest (parse crossedHeads).events ∧ NoneHidden (lexemes crossedHeads)) ∧
    (TellsOutermost crossedText 2 1 ∧ ExpressionsNest (parse crossedText).events ∧
      PlainHeads (lexemes crossedText) ∧ NoneHidden (lexemes crossedText)) ∧
    (TellsOutermost crossedExpressions 1 2 ∧ Nested (lexemes crossedExpressions) ∧
      PlainHeads (lexemes crossedExpressions) ∧ NoneHidden (lexemes crossedExpressions)) ∧
    (TellsOutermost hiddenText 0 1 ∧ Nested (lexemes hiddenText) ∧
      ExpressionsNest (parse hiddenText).events ∧ PlainHeads (lexemes hiddenText)) := by
  decide +kernel

end JavaModel
