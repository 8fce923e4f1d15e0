import JavaModel.Grammar.CompilationUnit
import JavaModel.Proofs.Printing.Declarations

/-! Whole source units printed as words. A text in which the words of a source unit stand apart is
parsed without an error, and the events told are those of the unit. -/

namespace JavaModel.Printing

open Grammar Reader

/-- What is declared in a source unit. -/
structure Source where
  package? : Option Written.Package
  imports : List Import
  types : List Declaration

/-- The words of a package declaration, on any line. -/
def packageRest (p : Written.Package) : List Word :=
  annotations p.annotations ++ (.sign .packageWord :: (dotted p.name ++ [.sign .semicolon]))

/-- The words of a package declaration. -/
def packageWords (p : Written.Package) : List Word := onLine p.line (packageRest p)

/-- The words of an import, on any line. -/
def importRest (i : Import) : List Word :=
  .sign .importWord :: ((if i.isStatic then modifiers [.isStatic] else []) ++
    (dotted i.name ++ ((if i.isWildcard then [.sign .dot, .of "*"] else []) ++
      [.sign .semicolon])))

/-- The words of an import. -/
def importWords (i : Import) : List Word := onLine i.line (importRest i)

/-- The words of a source unit. -/
def sourceWords (s : Source) : List Word :=
  (s.package?.map packageWords).getD [] ++
    (s.imports.flatMap importWords ++ s.types.flatMap declarationWords)

/-- The events of a source unit. -/
def sourceEvents (s : Source) : List Event :=
  .beginSource :: (s.package?.toList.map .package ++ (s.imports.map .imports ++
    (s.types.flatMap declarationEvents ++ [.endSource])))

/-- A package declaration of names. -/
structure IsPackage (p : Written.Package) : Prop where
  name : IsDotted p.name
  annotations : ∀ a ∈ p.annotations, IsMarker a

/-- A source unit that can be printed. -/
structure IsSource (s : Source) : Prop where
  package? : ∀ p ∈ s.package?, IsPackage p
  imports : ∀ i ∈ s.imports, IsDotted i.name
  types : ∀ d ∈ s.types, IsDeclaration d

/-! ### Imports -/

theorem isToken_star : IsToken .operator "*" := by decide +kernel

/-- What is written of a wildcard, if there is one. -/
def wildcardPieces (isWildcard : Bool) : List Piece :=
  if isWildcard then [⟨.dot, ".", none, []⟩, ⟨.operator, "*", none, []⟩] else []

theorem reads_importedName (segments : List String) (name : String) (isWildcard : Bool) {n : Nat}
    (hn : (segmentPieces segments ++ wildcardPieces isWildcard).length < n) :
    Reads (unroll importedNameBody n name) (segmentPieces segments ++ wildcardPieces isWildcard)
      (fun more => kindOf more 0 = some .semicolon) []
      (segments.foldl (fun name s => name ++ "." ++ s) name, isWildcard) := by
  induction segments generalizing name n with
  | nil =>
    cases n with
    | zero => exact absurd hn (Nat.not_lt_zero _)
    | succ n =>
      cases isWildcard with
      | false =>
        refine .look (.accept_false .dot) (fun more hmore => ?_) (.pure _)
        show kindOf more 0 ≠ some .dot
        simp [hmore]
      | true =>
        refine .step (.accept_true rfl) (.lookAhead (q := skip 1 >>= fun _ => pure (name, true))
          (fun more ls _ hls => ?_) (.step (.skip [_]) (.pure _)))
        obtain ⟨l, rest, rfl, hl, _⟩ := hls.uncons
        exact if_pos (by simp [Lexeme.kindAt, hl.kind, hl.text])
  | cons s segments ih =>
    cases n with
    | zero => exact absurd hn (Nat.not_lt_zero _)
    | succ n =>
      simp only [segmentPieces, List.flatMap_cons, List.cons_append, List.nil_append,
        List.length_cons] at hn ⊢
      refine .step (.accept_true rfl) (.lookAhead (q := do
        let part ← identifier .importedPart
        unroll importedNameBody n (name ++ "." ++ part)) (fun more ls _ hls => ?_) ?_)
      · obtain ⟨l, rest, rfl, hl, _⟩ := hls.uncons
        exact if_neg (by simp [Lexeme.kindAt, hl.kind])
      · exact .step (.identifier rfl _) (ih _ (by simp only [segmentPieces]; omega))

theorem free_importRest {i : Import} (h : IsDotted i.name) : ∀ w ∈ importRest i, w.Free := by
  simp only [importRest, List.forall_mem_cons, List.forall_mem_append]
  refine ⟨Word.free_sign rfl, ?_, free_dotted h, ?_, Word.free_sign rfl, by simp⟩
  · split
    · simpa [modifiers] using free_modifier .isStatic
    · simp
  · split
    · simpa using ⟨Word.free_sign rfl, isToken_star.free rfl⟩
    · simp

/-- An import is read back. -/
theorem reads_import {i : Import} (h : IsDotted i.name) :
    Reads importDeclaration (spell (importWords i)) (fun _ => True) [.imports i] () := by
  obtain ⟨name, isStatic, isWildcard, line⟩ := i
  cases hsegments : Name.segments name with
  | nil => exact absurd hsegments (by simp [Name.segments, Text.splitAt_ne_nil])
  | cons first segments =>
    have hname : Reads (recurse importedNameBody first) _ _ [] _ :=
      .recurse fun _ hn => reads_importedName segments first isWildcard hn
    rw [foldl_of_segments hsegments] at hname
    have hwildcard : spell (if isWildcard then [.sign .dot, .of "*"] else []) =
        wildcardPieces isWildcard := by
      cases isWildcard with
      | false => rfl
      | true =>
        rw [if_pos rfl, spell_cons, spell_cons, pieces_sign rfl, Word.of, isToken_star.pieces []]
        rfl
    have hrest : Reads (do
        let first ← identifier .importedName
        let imported ← recurse importedNameBody first
        let _ ← expect .semicolon .importEnd
        tell (.imports { name := imported.1, isStatic, isWildcard := imported.2, line }))
        (⟨.identifier, first, none, []⟩ :: (segmentPieces segments ++
          (wildcardPieces isWildcard ++ [⟨.semicolon, ";", none, []⟩]))) (fun _ => True)
        [.imports ⟨name, isStatic, isWildcard, line⟩] () := by
      rw [← List.append_assoc]
      refine .step (.identifier rfl _) (.quiet hname (fun more _ => rfl) ?_)
      exact .step (.expect rfl _) (.tell_last _)
    refine .lineHere (clean_of_free (free_importRest h)) (List.cons_ne_nil _ _) ?_
    simp (disch := decide) only [importRest, spell_cons, spell_append, pieces_sign, hwildcard,
      spell_dotted h hsegments, spell_nil, List.append_nil, List.cons_append, List.nil_append]
    refine .step (.skip [_]) ?_
    cases isStatic with
    | false => exact .look (.accept_false _) (fun more _ => by simp) hrest
    | true =>
      simp only [if_true, spell_modifiers]
      exact .step (.accept_true rfl) hrest

/-! ### Packages -/

theorem free_packageRest {p : Written.Package} (h : IsPackage p) :
    ∀ w ∈ packageRest p, w.Free := by
  simp only [packageRest, List.forall_mem_cons, List.forall_mem_append]
  exact ⟨free_annotations h.annotations, Word.free_sign rfl, free_dotted h.name,
    Word.free_sign rfl, by simp⟩

/-- A package declaration is read back. -/
theorem reads_package {p : Written.Package} (h : IsPackage p) :
    Reads packageDeclaration (spell (packageWords p)) (fun _ => True) [.package p] () := by
  refine .anyLook fun start => .look .docHere (fun _ _ => trivial) ?_
  refine .lineHere (clean_of_free (free_packageRest h)) (by simp [packageRest]) ?_
  simp (disch := decide) only [packageRest, spell_append, spell_cons, pieces_sign, spell_nil,
    List.append_nil, List.cons_append, List.nil_append]
  refine .quiet (reads_annotations h.annotations) (fun more _ => ⟨by simp, by simp, by simp⟩) ?_
  refine .look (.atKind .packageWord true) (fun more _ => by simp) ?_
  refine .look .docHere (fun _ _ => trivial) (.pass ?_)
  refine .step (.skip [_]) (.quiet (reads_qualifiedName h.name) (fun more _ => by simp) ?_)
  exact .step (.expect rfl _) (.tell_last _)

/-- Pieces begin like no package declaration: with annotations at most, and something else behind
them. -/
def BeginsNoPackage (ps : List Piece) : Prop :=
  ∀ ls, Spelled ps ls → ∃ notes rest, Grammar.annotations ls = ([], .ok (notes, rest)) ∧
    Lexeme.kindAt rest 0 ≠ some .packageWord

/-- Where no package is declared, nothing is taken. -/
theorem reads_noPackage : Reads packageDeclaration [] BeginsNoPackage [] () := by
  intro more ls hmore hls
  obtain ⟨notes, rest, hnotes, hkind⟩ := hmore ls hls
  refine ⟨ls, hls, ?_⟩
  rw [packageDeclaration, bind_quiet rfl, bind_quiet rfl, bind_quiet rfl, bind_quiet hnotes,
    bind_quiet rfl]
  simp [hkind, continueWith]

/-! ### Type declarations -/

/-- A type declaration begins with an annotation, a modifier or the words of its kind. -/
theorem kindOf_decorations_declarationRest {notes : List (AnnotationUse String)}
    (hnotes : ∀ a ∈ notes, IsMarker a) (ms : List Modifier) (d : Declaration) {k : TokenKind}
    (hk : k ∉ startKinds) (hmodifier : ∀ m, k ≠ .modifier m) (more : List Piece) :
    kindOf (spell (decorations ms notes) ++ (spell (declarationRest d) ++ more)) 0 ≠ some k := by
  obtain ⟨k', hk', hkind⟩ := kindOf_declarationRest d
  refine kindOf_decorated hnotes ?_ hmodifier ?_ ?_
  · rintro rfl
    exact hk (by decide)
  · rintro rfl
    exact hk (by decide)
  · rw [kindOf_append hkind more]
    rintro ⟨rfl⟩
    exact hk hk'

/-- The lexemes of a type declaration are those of its annotations, its modifiers and the words
behind them. -/
theorem spelled_declaration {d : Declaration} (h : IsDeclaration d) {more : List Piece}
    {ls : List Lexeme} (hls : Spelled (spell (declarationWords d) ++ more) ls) :
    Spelled (spell (annotations d.head.annotations) ++ (spell (modifiers d.head.modifiers) ++
      (spell (declarationRest d) ++ more))) ls := by
  have hclean : ∀ w ∈ decorations d.head.modifiers d.head.annotations ++ declarationRest d,
      w.Clean := by
    rw [List.forall_mem_append]
    exact ⟨clean_of_free (free_decorations h.isHead.annotations), h.clean_rest⟩
  rw [declarationWords_eq] at hls
  have hwords := (hls.onLine hclean (by simp [declarationRest, wordsAround])).1
  rwa [decorations, spell_append, spell_append, List.append_assoc, List.append_assoc] at hwords

theorem beginsNoPackage_declaration {d : Declaration} (h : IsDeclaration d) (more : List Piece) :
    BeginsNoPackage (spell (declarationWords d) ++ more) := by
  intro ls hls
  obtain ⟨rest, hrest, hnotes⟩ := reads_annotations h.isHead.annotations _ ls
    (h.endsDecorations more).endsAnnotations (spelled_declaration h hls)
  refine ⟨_, rest, hnotes, ?_⟩
  have hnil : ∀ a ∈ ([] : List (AnnotationUse String)), IsMarker a := by simp
  rw [hrest.kindAt]
  exact kindOf_decorations_declarationRest hnil _ d (by decide) (by simp) more

theorem startsModule_eq_false {ps : List Piece} {ls : List Lexeme} (h : Spelled ps ls)
    (hnote : kindOf ps 0 ≠ some .atSign) (hmodule : isWordOf ps 0 "module" = false)
    (hopen : isWordOf ps 0 "open" = false) : startsModule ls = false := by
  rw [← h.kindAt] at hnote
  rw [← h.isWordAt] at hmodule hopen
  match ls with
  | [] => rfl
  | [_] => exact hmodule
  | a :: b :: ls =>
    have ha : a.kind ≠ .atSign := fun ha => hnote (by simp [Lexeme.kindAt, ha])
    simp [startsModule, ha, hmodule, hopen]

theorem startsModule_note {p q : Piece} {ps : List Piece} {ls : List Lexeme}
    (h : Spelled (p :: q :: ps) ls) (hp : p.kind = .atSign) :
    ∃ rest, Spelled ps rest ∧ startsModule ls = startsModule rest := by
  obtain ⟨a, tail, rfl, ha, h⟩ := h.uncons
  obtain ⟨b, rest, rfl, _, h⟩ := h.uncons
  exact ⟨rest, h, by simp [startsModule, ha.kind, hp]⟩

theorem startsModule_annotations {notes : List (AnnotationUse String)}
    (hnotes : ∀ a ∈ notes, IsMarker a) {ps : List Piece} {ls : List Lexeme}
    (hps : ∀ rest, Spelled ps rest → startsModule rest = false)
    (hls : Spelled (spell (annotations notes) ++ ps) ls) : startsModule ls = false := by
  induction notes generalizing ls with
  | nil => exact hps ls hls
  | cons a notes ih =>
    obtain ⟨first, segments, hspell⟩ := spell_marker (hnotes a List.mem_cons_self)
    rw [annotations, List.flatMap_cons, spell_append, hspell] at hls
    obtain ⟨rest, hrest, hskip⟩ := startsModule_note hls rfl
    rw [hskip]
    cases segments with
    | nil => exact ih (fun b hb => hnotes b (List.mem_cons_of_mem _ hb)) hrest
    | cons s segments =>
      exact startsModule_eq_false hrest (by simp [segmentPieces]) (by simp [segmentPieces])
        (by simp [segmentPieces])

theorem startsModule_kindWords {c : Written.Class} (h : IsHead c) {vs : List Word}
    {more : List Piece} {ls : List Lexeme}
    (hls : Spelled (spell (kindWords c.kind ++ (.of c.name :: vs)) ++ more) ls) :
    startsModule ls = false := by
  rw [spell_append, spell_cons, h.name.pieces] at hls
  cases hkind : c.kind with
  | annotationType =>
    simp (disch := decide) only [hkind, kindWords, spell_cons, pieces_sign, spell_nil] at hls
    obtain ⟨rest, hrest, hskip⟩ := startsModule_note hls rfl
    rw [hskip]
    have hplain := h.name.plain
    simp only [contextualWords, List.mem_cons, not_or] at hplain
    exact startsModule_eq_false hrest (by simp) (by simp [hplain]) (by simp [hplain])
  | recordType =>
    rw [hkind, kindWords, spell_cons, Word.of, isToken_record.pieces []] at hls
    exact startsModule_eq_false hls (by simp) (by simp) (by simp)
  | _ =>
    simp (disch := decide) only [hkind, kindWords, spell_cons, pieces_sign, spell_nil] at hls
    exact startsModule_eq_false hls (by simp) (by simp) (by simp)

/-- A type declaration does not begin like a module declaration. -/
theorem startsModule_declaration {d : Declaration} (h : IsDeclaration d) {more : List Piece}
    {ls : List Lexeme} (hls : Spelled (spell (declarationWords d) ++ more) ls) :
    startsModule ls = false := by
  refine startsModule_annotations h.isHead.annotations (fun rest hrest => ?_)
    (spelled_declaration h hls)
  rw [spell_modifiers] at hrest
  cases hms : d.head.modifiers with
  | nil =>
    rw [hms] at hrest
    exact startsModule_kindWords h.isHead hrest
  | cons m ms =>
    rw [hms] at hrest
    cases m <;> exact startsModule_eq_false hrest (by simp [modifierPieces])
      (by simp [modifierPieces]) (by simp [modifierPieces])

theorem reads_typeDeclaration {d : Declaration} (h : IsDeclaration d) :
    Reads typeDeclaration (spell (declarationWords d)) (fun _ => True) (declarationEvents d)
      () := by
  rw [declarationWords_eq]
  exact reads_declared h.isHead h.clean_rest (.recurse fun _ hn => reads_classBodyOf h hn)

/-- The type declarations of a source unit are read one by one up to its end. -/
theorem reads_declarations {ι : Type} {words : ι → List Word} {events : ι → List Event}
    {ds : List ι} (hbegins : ∀ d ∈ ds, ∀ more, BeginsItem (spell (words d) ++ more))
    (hmodule : ∀ d ∈ ds, ∀ more ls, Spelled (spell (words d) ++ more) ls →
      startsModule ls = false)
    (hreads : ∀ d ∈ ds, Reads typeDeclaration (spell (words d)) (fun _ => True) (events d) ())
    {n : Nat} (hn : (spell (ds.flatMap words)).length < n) :
    Reads (unroll declarationsBody n ()) (spell (ds.flatMap words))
      (fun more => more = []) (ds.flatMap events) () := by
  induction ds generalizing n with
  | nil =>
    match n, hn with
    | n + 1, _ =>
      refine .lookAhead (q := pure ()) (fun more ls hmore hls => ?_) (.pure _)
      subst hmore
      exact if_pos hls.isEmpty
  | cons d ds ih =>
    match n, hn with
    | n + 1, hn =>
      rw [List.forall_mem_cons] at hbegins hmodule hreads
      obtain ⟨k, hk, _, hsemicolon, _⟩ := (hbegins.1 []).first
      rw [List.append_nil] at hk
      have hpos := List.length_pos_of_ne_nil (ne_nil_of_kindOf hk)
      rw [List.flatMap_cons, spell_append, List.length_append] at hn
      rw [List.flatMap_cons, List.flatMap_cons, spell_append]
      refine .lookAhead (q := typeDeclaration >>= fun _ => unroll declarationsBody n ())
        (fun more ls _ hls => ?_) ?_
      · rw [List.append_assoc] at hls
        have hkind := kindOf_append hk (spell (ds.flatMap words) ++ more)
        have hne : ls.isEmpty = false := by
          rw [hls.isEmpty, List.isEmpty_eq_false_iff]
          exact ne_nil_of_kindOf hkind
        have hnext : Lexeme.kindAt ls 0 ≠ some .semicolon := by
          rw [hls.kindAt, hkind]
          exact fun h => hsemicolon (Option.some.inj h)
        simp only [hne, hnext, hmodule.1 _ ls hls, if_false, Bool.false_eq_true]
      · exact hreads.1.bind (ih hbegins.2 hmodule.2 hreads.2 (by omega)) fun _ _ => trivial

/-! ### Source units -/

theorem kindOf_import (i : Import) (more : List Piece) :
    kindOf (spell (importWords i) ++ more) 0 = some .importWord := by
  rw [importWords, kindOf_onLine, importRest, spell_cons, pieces_sign rfl]
  rfl

theorem kindOf_types {ds : List Declaration} (h : ∀ d ∈ ds, IsDeclaration d) :
    kindOf (spell (ds.flatMap declarationWords)) 0 ≠ some .importWord := by
  cases ds with
  | nil => simp
  | cons d ds =>
    rw [List.flatMap_cons, spell_append, declarationWords_eq, kindOf_onLine, spell_append,
      List.append_assoc]
    exact kindOf_decorations_declarationRest (h d List.mem_cons_self).isHead.annotations _ d
      (by decide) (by simp) _

theorem reads_imports {is : List Import} (h : ∀ i ∈ is, IsDotted i.name) :
    Reads (many (fun ls => Lexeme.kindAt ls 0 = some .importWord) importDeclaration)
      (spell (is.flatMap importWords)) (fun more => kindOf more 0 ≠ some .importWord)
      (is.map .imports) (is.map fun _ => ()) := by
  rw [spell_flatMap, List.map_eq_flatMap]
  refine .many (fun i hi => reads_import (h i hi)) ?_ ?_ ?_ (fun _ _ => trivial)
    (fun _ _ _ => trivial)
  · intro i _
    have hkind := kindOf_import i []
    rw [List.append_nil] at hkind
    exact ne_nil_of_kindOf hkind
  · intro i _ more ls hls
    simp [hls.kindAt, kindOf_import]
  · intro more ls hmore hls
    simp [hls.kindAt, hmore]

/-- The imports of a source unit and its type declarations are read up to its end. -/
theorem reads_unpackaged {is : List Import} (himports : ∀ i ∈ is, IsDotted i.name)
    {ps : List Piece} {told : List Event} (hkind : kindOf ps 0 ≠ some .importWord)
    (htypes : Reads (recurse declarationsBody ()) ps (fun more => more = []) told ()) :
    Reads (do
      let _ ← many (fun ls => Lexeme.kindAt ls 0 = some .importWord) importDeclaration
      recurse declarationsBody ()
      tell .endSource) (spell (is.flatMap importWords) ++ ps) (fun more => more = [])
      (is.map .imports ++ (told ++ [.endSource])) () := by
  rw [← List.append_nil ps]
  refine (reads_imports himports).bind (htypes.bind (.tell_last _) fun more hmore => hmore) ?_
  intro more hmore
  rwa [hmore, List.append_nil, List.append_nil]

theorem beginsNoPackage_of_kind {ps : List Piece} (h : EndsAnnotations ps)
    (hpackage : kindOf ps 0 ≠ some .packageWord) : BeginsNoPackage ps := by
  intro ls hls
  have hnil : ∀ a ∈ ([] : List (AnnotationUse String)), IsMarker a := by simp
  obtain ⟨rest, hrest, hnotes⟩ := reads_annotations hnil ps ls h hls
  refine ⟨_, rest, hnotes, ?_⟩
  rwa [hrest.kindAt]

theorem beginsNoPackage_source {is : List Import} {ds : List Declaration}
    (h : ∀ d ∈ ds, IsDeclaration d) :
    BeginsNoPackage (spell (is.flatMap importWords ++ ds.flatMap declarationWords)) := by
  rw [spell_append]
  cases is with
  | cons i is =>
    rw [List.flatMap_cons, spell_append, List.append_assoc]
    have hkind := kindOf_import i
      (spell (is.flatMap importWords) ++ spell (ds.flatMap declarationWords))
    exact beginsNoPackage_of_kind ⟨by simp [hkind], by simp [hkind], by simp [hkind]⟩
      (by simp [hkind])
  | nil =>
    cases ds with
    | nil => exact beginsNoPackage_of_kind ⟨by simp, by simp, by simp⟩ (by simp)
    | cons d ds =>
      rw [List.flatMap_nil, spell_nil, List.nil_append, List.flatMap_cons, spell_append]
      exact beginsNoPackage_declaration (h d List.mem_cons_self) _

/-- A source unit is read back. -/
theorem reads_source {s : Source} (h : IsSource s) :
    Reads compilationUnit (spell (sourceWords s)) (fun more => more = []) (sourceEvents s) () := by
  have htypes : Reads (recurse declarationsBody ()) (spell (s.types.flatMap declarationWords))
      (fun more => more = []) (s.types.flatMap declarationEvents) () :=
    .recurse fun _ hn => reads_declarations (fun d hd => (h.types d hd).beginsItem)
      (fun d hd _ _ hls => startsModule_declaration (h.types d hd) hls)
      (fun d hd => reads_typeDeclaration (h.types d hd)) hn
  have hrest := reads_unpackaged h.imports (kindOf_types h.types) htypes
  rw [← spell_append] at hrest
  refine .tell _ ?_
  obtain ⟨package?, imports, types⟩ := s
  cases package? with
  | none =>
    refine .look reads_noPackage (fun more hmore => ?_) hrest
    rw [hmore, List.append_nil]
    exact beginsNoPackage_source h.types
  | some p =>
    have hwords : spell (sourceWords ⟨some p, imports, types⟩) = spell (packageWords p) ++
        spell (imports.flatMap importWords ++ types.flatMap declarationWords) := spell_append _ _
    rw [hwords]
    exact (reads_package (h.package? p rfl)).bind hrest fun _ _ => trivial

theorem clean_source {s : Source} (h : IsSource s) : ∀ w ∈ sourceWords s, w.Clean := by
  simp only [sourceWords, List.forall_mem_append]
  refine ⟨?_, ?_, ?_⟩
  · cases hpackage : s.package? with
    | none => simp
    | some p => exact Clean.onLine (clean_of_free (free_packageRest (h.package? p hpackage))) _
  · intro w hw
    obtain ⟨i, hi, hw⟩ := List.mem_flatMap.mp hw
    exact Clean.onLine (clean_of_free (free_importRest (h.imports i hi))) _ w hw
  · intro w hw
    obtain ⟨d, hd, hw⟩ := List.mem_flatMap.mp hw
    exact (h.types d hd).clean w hw

/-- A text in which words stand apart is parsed as they are read. -/
theorem parse_of_reads {ws : List Word} {told : List Event}
    (hreads : Reads compilationUnit (spell ws) (fun more => more = []) told ())
    (hclean : ∀ w ∈ ws, w.Clean) {text : String} (hlaid : Laid 1 ws text.toList) :
    parse text = ⟨told, none⟩ := by
  obtain ⟨hlexed, hspelled⟩ := hlaid.spelled hclean
  obtain ⟨rest, _, hrun⟩ := hreads [] _ rfl (by rw [List.append_nil]; exact hspelled)
  simp only [parse, hlexed, hrun]

/-- A text in which the words of a source unit stand apart, and its declarations on their lines, is
parsed as that unit. -/
theorem parse_laid {s : Source} (h : IsSource s) {text : String}
    (hlaid : Laid 1 (sourceWords s) text.toList) : parse text = ⟨sourceEvents s, none⟩ :=
  parse_of_reads (reads_source h) (clean_source h) hlaid

end JavaModel.Printing
