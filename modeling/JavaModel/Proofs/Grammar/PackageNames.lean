import JavaModel.Proofs.Grammar.Fronts
import JavaModel.Proofs.Grammar.Telling
import JavaModel.Proofs.Token.Run

/-! Packages have names. An identifier is a word, a reader leaves only lexemes that it was given, and
the package that a text tells is told by the reader of package declarations alone, so that its name
begins with an identifier. -/

namespace JavaModel

/-! ### Words -/

/-- The kinds of the words that names are made of: identifiers, and the names of primitive types. -/
def TokenKind.isNaming (k : TokenKind) : Prop := k = .identifier ∨ k = .primitive

/-- A text is a word: one character at least, each of which may stand in a word. -/
structure Lexer.IsWord (text : String) : Prop where
  nonempty : text ≠ ""
  chars : ∀ c ∈ text.toList, Lexer.isWordPart c

/-- A word that begins with a character that may begin one. -/
structure Lexer.IsFullWord (text : String) : Prop extends Lexer.IsWord text where
  start : ∀ c ∈ text.toList.head?, Lexer.isWordStart c

namespace Lexer

theorem sign?_ne_naming {k : TokenKind} (hk : k.isNaming) (c : Char) : sign? c ≠ some k := by
  rcases hk with rfl | rfl <;>
    simp only [sign?, ne_eq, apply_ite (· = some TokenKind.identifier),
      apply_ite (· = some TokenKind.primitive), Option.some.injEq, reduceCtorEq, ite_self,
      not_false_eq_true]

/-- A token that names are made of begins as a word. -/
theorem isWordStart_of_naming {c : Char} {cs : List Char} (h : (lexeme c cs).1.isNaming) :
    isWordStart c := by
  cases hword : isWordStart c with
  | true => rfl
  | false =>
    have hsign := sign?_ne_naming h c
    simp only [lexeme, hword, Bool.false_eq_true, if_false, commentKind] at h hsign
    unfold TokenKind.isNaming at h
    repeat' split at h
    all_goals simp_all

/-- Among the tokens of a text, those that names are made of are words of their kind. -/
theorem word_of_run {s : State} {cs : List Char} {t : Token} (h : t ∈ (run s cs).tokens)
    (hkind : t.kind.isNaming) : IsFullWord t.text ∧ t.kind = .ofWord t.text := by
  induction cs generalizing s with
  | nil => cases h
  | cons c cs ih =>
    cases hpending : s.pending with
    | succ n =>
      rw [run_pending hpending] at h
      exact ih h
    | zero =>
      cases hspace : isSpace c with
      | true =>
        rw [run_space hpending hspace] at h
        exact ih h
      | false =>
        cases hfault : (lexeme c cs).2.fault with
        | some fault =>
          simp [run, hpending, hspace, hfault] at h
        | none =>
          rw [run_token hpending hspace hfault] at h
          rcases List.mem_cons.mp h with rfl | h
          · have hword := isWordStart_of_naming hkind
            have hlexeme : lexeme c cs = (.ofWord (String.ofList
                ((c :: cs).take (span isWordPart (c :: cs)))),
                .whole (span isWordPart (c :: cs))) := if_pos hword
            have htext : (s.token c cs).text =
                String.ofList ((c :: cs).takeWhile isWordPart) := by
              simp only [State.token, hlexeme, Extent.whole, span]
              exact congrArg String.ofList (List.prefix_iff_eq_take.mp
                (List.takeWhile_prefix isWordPart)).symm
            refine ⟨⟨⟨?_, fun d hd => ?_⟩, fun d hd => ?_⟩, ?_⟩
            · rw [htext]
              simp [isWordPart, hword]
            · rw [htext, String.toList_ofList] at hd
              exact List.all_eq_true.mp List.all_takeWhile d hd
            · have hpart : isWordPart c := by simp [isWordPart, hword]
              rw [htext, String.toList_ofList, List.takeWhile_cons_of_pos hpart] at hd
              cases hd
              exact hword
            · simp only [State.token, hlexeme, Extent.whole]
          · exact ih h

end Lexer

namespace Lexeme

/-- What holds of all tokens holds of all lexemes. -/
theorem forall_attach {P : TokenKind → String → Prop} {leading : String} {doc : Option String}
    {ts : List Token} (h : ∀ t ∈ ts, P t.kind t.text) :
    ∀ l ∈ attach leading doc ts, P l.kind l.text := by
  induction ts generalizing leading doc with
  | nil => simp [attach]
  | cons t ts ih =>
    obtain ⟨ht, hts⟩ := List.forall_mem_cons.mp h
    unfold attach
    split
    · exact ih hts
    · exact List.forall_mem_cons.mpr ⟨ht, ih hts⟩

/-- Among the lexemes of a text, those that names are made of are words of their kind. -/
theorem word_of_lex {text : String} {l : Lexeme} (h : l ∈ ofTokens (lex text).tokens)
    (hkind : l.kind.isNaming) : Lexer.IsFullWord l.text ∧ l.kind = .ofWord l.text :=
  forall_attach (P := fun k text => k.isNaming → Lexer.IsFullWord text ∧ k = .ofWord text)
    (fun _ ht => Lexer.word_of_run ht) l h hkind

end Lexeme

/-! ### What readers leave -/

namespace Reader

variable {α β : Type} {ls : List Lexeme} {e : Event}

/-- A reader leaves only lexemes that it was given. -/
def Leaves (p : Reader α) : Prop := ∀ ls a rest, (p ls).2 = .ok (a, rest) → rest ⊆ ls

theorem Leaves.bind {p : Reader α} {f : α → Reader β} (hp : Leaves p) (hf : ∀ a, Leaves (f a)) :
    Leaves (p >>= f) := by
  intro ls b rest h
  change (andThen p f ls).2 = .ok (b, rest) at h
  unfold andThen at h
  rcases hrun : p ls with ⟨told, m | ⟨a, left⟩⟩
  · rw [hrun] at h
    cases h
  · rw [hrun] at h
    exact List.Subset.trans (hf a left b rest h) (hp ls a left (by rw [hrun]))

theorem Leaves.ite {c : Prop} [Decidable c] {p q : Reader α} (hp : Leaves p) (hq : Leaves q) :
    Leaves (if c then p else q) := by
  split
  · exact hp
  · exact hq

theorem leaves_pure (a : α) : Leaves (pure a) := by
  rintro ls b rest ⟨⟩
  exact List.Subset.refl ls

theorem leaves_fail (x : Expectation) : Leaves (fail x : Reader α) := by
  rintro ls b rest ⟨⟩

theorem leaves_lookAhead : Leaves lookAhead := by
  rintro ls b rest ⟨⟩
  exact List.Subset.refl ls

theorem leaves_atKind (k : TokenKind) : Leaves (atKind k) := by
  rintro ls b rest ⟨⟩
  exact List.Subset.refl ls

theorem leaves_skip (n : Nat) : Leaves (skip n) := by
  rintro ls b rest ⟨⟩
  exact List.drop_subset n ls

theorem Leaves.recurse {body : (α → Reader β) → α → Reader β}
    (hbody : ∀ self, (∀ a, Leaves (self a)) → ∀ a, Leaves (body self a)) (a : α) :
    Leaves (recurse body a) := fun ls =>
  unroll_induction (P := fun _ p => Leaves p) (fun _ => leaves_fail _) hbody (ls.length + 1) a ls

theorem Leaves.many {item : Reader α} (h : Leaves item) (starts : List Lexeme → Bool) :
    Leaves (many starts item) := by
  refine Leaves.recurse (fun self hself _ => leaves_lookAhead.bind fun ls => ?_) ()
  exact .ite (h.bind fun a => (hself ()).bind fun as => leaves_pure _) (leaves_pure _)

/-- An event that two readers tell one after the other is told by one of them. -/
theorem mem_bind {p : Reader α} {f : α → Reader β} (h : e ∈ ((p >>= f) ls).1) :
    e ∈ (p ls).1 ∨ ∃ a rest, (p ls).2 = .ok (a, rest) ∧ e ∈ (f a rest).1 := by
  change e ∈ (andThen p f ls).1 at h
  unfold andThen at h
  rcases hrun : p ls with ⟨told, m | ⟨a, left⟩⟩
  · rw [hrun] at h
    exact .inl h
  · rw [hrun] at h
    exact (List.mem_append.mp h).imp_right fun h => ⟨a, left, rfl, h⟩

/-- A reader that tells nothing first leaves all to the next. -/
theorem Silent.mem_bind {p : Reader α} {f : α → Reader β} (hp : Silent p)
    (h : e ∈ ((p >>= f) ls).1) : ∃ a rest, (p ls).2 = .ok (a, rest) ∧ e ∈ (f a rest).1 := by
  rcases Reader.mem_bind h with h | h
  · rw [hp ls] at h
    cases h
  · exact h

end Reader

namespace Grammar

open Reader

/-- Further segments are put behind a name, and what follows them is left. -/
theorem takeSegments_spec (name : String) (ls : List Lexeme) :
    (∃ more, (takeSegments name ls).1 = name ++ more) ∧ (takeSegments name ls).2 ⊆ ls := by
  fun_induction takeSegments name ls with
  | case1 name d l ls _ ih =>
    obtain ⟨⟨more, hmore⟩, hrest⟩ := ih
    refine ⟨⟨"." ++ l.text ++ more, ?_⟩, fun x hx => ?_⟩
    · rw [hmore, String.append_assoc, String.append_assoc, String.append_assoc]
    · exact List.mem_cons_of_mem d (List.mem_cons_of_mem l (hrest hx))
  | case2 name d l ls _ => exact ⟨⟨"", String.append_empty.symm⟩, List.Subset.refl _⟩
  | case3 name ls _ => exact ⟨⟨"", String.append_empty.symm⟩, List.Subset.refl _⟩

/-- A dotted name begins with an identifier. -/
theorem qualifiedName_spec {ls rest : List Lexeme} {name : String}
    (h : (qualifiedName ls).2 = .ok (name, rest)) :
    rest ⊆ ls ∧ ∃ l ∈ ls, l.kind = .identifier ∧ ∃ more, name = l.text ++ more := by
  cases ls with
  | nil => cases h
  | cons l ls =>
    by_cases hkind : l.kind = .identifier
    · have hfirst : identifier .name (l :: ls) = ([], .ok (l.text, ls)) := if_pos hkind
      have hrun : (qualifiedName (l :: ls)).2 =
          .ok ((takeSegments l.text ls).1, (takeSegments l.text ls).2) := by
        change (andThen (identifier .name) _ (l :: ls)).2 = _
        simp only [andThen, hfirst]
        rfl
      obtain ⟨hname, hrest⟩ := takeSegments_spec l.text ls
      obtain ⟨rfl, rfl⟩ := Prod.mk.inj (Except.ok.inj (hrun.symm.trans h))
      exact ⟨List.subset_cons_of_subset l hrest, l, List.mem_cons_self .., hkind, hname⟩
    · have hfirst : identifier .name (l :: ls) = fail .name (l :: ls) := if_neg hkind
      change (andThen (identifier .name) _ (l :: ls)).2 = _ at h
      simp only [andThen, hfirst] at h
      cases h

theorem splitClosing_subset {b : Bracket} {depth : Nat} {ls inner rest : List Lexeme}
    {close : Lexeme} (h : splitClosing b depth ls = some (inner, close, rest)) : rest ⊆ ls := by
  induction ls generalizing depth inner with
  | nil => cases h
  | cons l ls ih =>
    -- Before the closing bracket every lexeme is passed over.
    have hpass {d : Nat} (h : (splitClosing b d ls).map (fun found => (l :: found.1, found.2)) =
        some (inner, close, rest)) : rest ⊆ l :: ls := by
      obtain ⟨⟨more, last, left⟩, hmore, heq⟩ := Option.map_eq_some_iff.mp h
      cases heq
      exact List.subset_cons_of_subset l (ih hmore)
    unfold splitClosing at h
    split at h
    · exact hpass h
    · split at h
      · cases depth with
        | zero =>
          cases h
          exact List.subset_cons_self _ _
        | succ d => exact hpass h
      · exact hpass h

theorem leaves_enclosed (b : Bracket) : Leaves (enclosed b) := by
  intro ls text rest h
  unfold enclosed at h
  split at h
  · rename_i hsplit
    cases h
    exact List.Subset.trans (splitClosing_subset hsplit) (List.tail_sublist ls).subset
  · cases h

theorem leaves_annotations : Leaves annotations := by
  refine Leaves.many ?_ _
  have hname : Leaves qualifiedName := fun ls name rest h => (qualifiedName_spec h).1
  refine (leaves_skip 1).bind fun _ => hname.bind fun name => ?_
  refine (leaves_atKind _).bind fun b => .ite ?_ (leaves_pure _)
  exact (leaves_enclosed _).bind fun _ => leaves_pure _

/-! ### The package of a text -/

theorem package_not_mem_tellDoc (doc : Option String) (target : DocTarget) (ls : List Lexeme)
    (p : Written.Package) : .package p ∉ (tellDoc doc target ls).1 := by
  cases doc <;> simp [tellDoc, Reader.tell, pure, succeed]

theorem leaves_tellDoc (doc : Option String) (target : DocTarget) :
    Leaves (tellDoc doc target) := by
  cases doc with
  | none => exact leaves_pure ()
  | some text =>
    rintro ls a rest ⟨⟩
    exact List.Subset.refl ls

/-- A package that is told has a name that begins with an identifier. -/
theorem named_of_packageDeclaration {ls : List Lexeme} {p : Written.Package}
    (h : .package p ∈ (packageDeclaration ls).1) :
    ∃ l ∈ ls, l.kind = .identifier ∧ ∃ more, p.name = l.text ++ more := by
  obtain ⟨_, _, ⟨⟩, h⟩ := silent_lookAhead.mem_bind h
  obtain ⟨_, _, ⟨⟩, h⟩ := silent_docHere.mem_bind h
  obtain ⟨_, _, ⟨⟩, h⟩ := silent_lineHere.mem_bind h
  obtain ⟨notes, behind, hnotes, h⟩ := silent_annotations.mem_bind h
  have hbehind := leaves_annotations ls notes behind hnotes
  obtain ⟨b, _, ⟨⟩, h⟩ := (silent_atKind _).mem_bind h
  split at h
  · obtain ⟨nearer, _, ⟨⟩, h⟩ := silent_docHere.mem_bind h
    rcases Reader.mem_bind h with h | ⟨_, rest, hrest, h⟩
    · exact absurd h (package_not_mem_tellDoc _ _ _ _)
    obtain ⟨_, _, ⟨⟩, h⟩ := (silent_skip 1).mem_bind h
    obtain ⟨name, _, hname, h⟩ := silent_qualifiedName.mem_bind h
    obtain ⟨_, _, _, h⟩ := (silent_expect _ _).mem_bind h
    obtain rfl : p = ⟨name, notes, _⟩ := by simpa [Reader.tell] using h
    obtain ⟨l, hl, hkind, hmore⟩ := (qualifiedName_spec hname).2
    exact ⟨l, hbehind (leaves_tellDoc _ _ _ _ _ hrest (List.drop_subset 1 rest hl)), hkind, hmore⟩
  · cases h

/-- Behind the package declaration no package is told. -/
theorem no_package_of_run {s t : Telling} {es : List Event} (hs : 2 ≤ s.phase.rank)
    (h : s.run es = some t) (p : Written.Package) : .package p ∉ es := by
  induction es generalizing s with
  | nil => exact List.not_mem_nil
  | cons e es ih =>
    rw [Telling.run_cons, Option.bind_eq_some_iff] at h
    obtain ⟨u, hu, h⟩ := h
    obtain ⟨rfl, _, _⟩ | ⟨hopen, _, hin⟩ := Telling.after?_cases hu
    · exact absurd hs (by decide)
    · have hle := (Telling.inside?_rank hin hopen).1
      intro hp
      rcases List.mem_cons.mp hp with rfl | hp
      · have := prologue_of_package hin
        omega
      · exact ih (Nat.le_trans hs hle) h hp

theorem named_of_compilationUnit {ls : List Lexeme} {p : Written.Package}
    (h : .package p ∈ (compilationUnit ls).1) :
    ∃ l ∈ ls, l.kind = .identifier ∧ ∃ more, p.name = l.text ++ more := by
  rcases Reader.mem_bind h with h | ⟨_, _, ⟨⟩, h⟩
  · simp [Reader.tell] at h
  rcases Reader.mem_bind h with h | ⟨_, rest, _, h⟩
  · exact named_of_packageDeclaration h
  · -- What follows keeps the protocol also where a package has been told before.
    have hhead : InHead ⟨.imports, 0, .anything⟩ := ⟨.inr rfl, rfl, rfl⟩
    have hend (v : Telling) (hv : Outermost v) :
        Tells v (Reader.tell .endSource) (· = Telling.finished) :=
      tells_inside hv.1.1 (by simp [Telling.inside?, hv.2, hv.1.2, Telling.finished])
    obtain ⟨t, ht, _⟩ := (importDeclarations_tells hhead _).bind (fun _ u hu =>
      (declarations_tells ⟨hu.ready, hu.2.1⟩).bind fun _ v hv => hend v hv) rest
    exact absurd h (no_package_of_run (by decide) ht p)

end Grammar

/-- A text has a malformed token, or its lexemes are read as a source unit, or they stop before. -/
theorem parse_cases (text : String) :
    let read := Grammar.compilationUnit (Lexeme.ofTokens (lex text).tokens)
    (∃ e, (lex text).error = some e ∧ parse text = ⟨[], some (.lexical e)⟩) ∨
      (lex text).error = none ∧
        ((∃ told rest, read = (told, .ok ((), rest)) ∧ parse text = ⟨told, none⟩) ∨
          ∃ told m, read = (told, .error m) ∧
            parse text = ⟨told, some (.grammatical (.ofMismatch text m))⟩) := by
  intro read
  cases herror : (lex text).error with
  | some e => exact .inl ⟨e, rfl, by simp only [parse, herror]⟩
  | none =>
    rcases hrun : read with ⟨told, m | ⟨_, rest⟩⟩
    · exact .inr ⟨rfl, .inr ⟨told, m, rfl, by simp only [parse, herror, read, hrun]⟩⟩
    · exact .inr ⟨rfl, .inl ⟨told, rest, rfl, by simp only [parse, herror, read, hrun]⟩⟩

/-- A text that follows the grammar is read as a source unit. -/
theorem compilationUnit_of_parse {text : String} (h : (parse text).error = none) :
    ∃ rest, Grammar.compilationUnit (lexemes text) = ((parse text).events, .ok ((), rest)) := by
  obtain ⟨e, -, hparse⟩ | ⟨-, ⟨told, rest, hrun, hparse⟩ | ⟨told, m, -, hparse⟩⟩ := parse_cases text
  · rw [hparse] at h
    cases h
  · rw [hparse]
    exact ⟨rest, hrun⟩
  · rw [hparse] at h
    cases h

/-- A text tells nothing, or what its lexemes tell as a source unit. -/
theorem events_parse (text : String) : (parse text).events = [] ∨ (parse text).events =
    (Grammar.compilationUnit (Lexeme.ofTokens (lex text).tokens)).1 := by
  obtain ⟨e, -, h⟩ | ⟨-, ⟨told, rest, hrun, h⟩ | ⟨told, m, hrun, h⟩⟩ := parse_cases text
  · exact .inl (by rw [h])
  · exact .inr (by rw [h, hrun])
  · exact .inr (by rw [h, hrun])

/-- The package of a text has a name. -/
theorem package_name_ne {text : String} {p : Written.Package}
    (h : .package p ∈ (parse text).events) : p.name ≠ "" := by
  rcases events_parse text with hnone | hsome
  · rw [hnone] at h
    cases h
  · rw [hsome] at h
    obtain ⟨l, hl, hkind, more, hname⟩ := Grammar.named_of_compilationUnit h
    have hword := (Lexeme.word_of_lex hl (.inl hkind)).1
    intro hempty
    rw [hempty, eq_comm, String.append_eq_empty_iff] at hname
    exact hword.nonempty hname.1

end JavaModel
