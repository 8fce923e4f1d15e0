import JavaModel.Proofs.Printing.Sources

/-! Source units printed on any lines. Wherever the words of a source unit are set apart, each
declaration begins on some line, and the unit is parsed back with these lines. -/

namespace JavaModel

/-- An event that does not say on which line something is declared. -/
def Event.unlined : Event → Event
  | package p => package { p with line := 0 }
  | imports i => imports { i with line := 0 }
  | beginClass c => beginClass { c with line := 0 }
  | beginField f => beginField { f with line := 0 }
  | beginMethod m => beginMethod { m with line := 0 }
  | e => e

/-- A word of which no line is asked. -/
def Word.anywhere (w : Word) : Word := { w with lines := [] }

namespace Printing

variable {ι : Type} {words : ι → List Word} {events : ι → List Event} {P : ι → Prop}

/-- Words with other lines asked of them, one for each place, where any is asked. -/
def relined (line : Nat → Nat) : List Word → List Word
  | [] => []
  | w :: ws => { w with lines := w.lines.map fun _ => line 0 } :: relined (fun i => line (i + 1)) ws

theorem relined_append (line : Nat → Nat) (ws vs : List Word) :
    relined line (ws ++ vs) = relined line ws ++ relined (fun i => line (i + ws.length)) vs := by
  induction ws generalizing line with
  | nil => rfl
  | cons w ws ih =>
    rw [List.cons_append, relined, relined, ih, List.cons_append, List.length_cons]
    simp only [Nat.add_assoc]

theorem relined_free (line : Nat → Nat) {ws : List Word} (h : ∀ w ∈ ws, w.Free) :
    relined line ws = ws := by
  induction ws generalizing line with
  | nil => rfl
  | cons w ws ih =>
    rw [List.forall_mem_cons] at h
    obtain ⟨text, lines⟩ := w
    obtain rfl : lines = [] := h.1.lines
    rw [relined, ih _ h.2]
    rfl

theorem relined_onLine (line : Nat → Nat) (n : Nat) (ws : List Word) :
    relined line (onLine n ws) = onLine (line 0) (relined line ws) := by
  cases ws <;> rfl

theorem relined_onLine_free (line : Nat → Nat) (n : Nat) {ws : List Word}
    (h : ∀ w ∈ ws, w.Free) : relined line (onLine n ws) = onLine (line 0) ws := by
  rw [relined_onLine, relined_free line h]

/-- Words set anywhere are set on some lines. -/
theorem exists_laid_relined {ws : List Word} {n : Nat} {text : List Char}
    (h : Laid n (ws.map Word.anywhere) text) : ∃ line, Laid n (relined line ws) text := by
  induction ws generalizing n text with
  | nil => exact ⟨fun _ => 0, h⟩
  | cons w ws ih =>
    cases h with
    | @word _ _ _ gap rest hgap _ hrest more =>
      obtain ⟨line, hmore⟩ := ih more
      refine ⟨fun i => if i = 0 then n + gap.count '\n' else line (i - 1), ?_⟩
      refine .word hgap ?_ hrest hmore
      simp

/-- What is printed may be moved to any lines. -/
def Movable (words : ι → List Word) (events : ι → List Event) (P : ι → Prop) (x : ι) : Prop :=
  ∀ line : Nat → Nat, ∃ y, P y ∧ words y = relined line (words x) ∧
    (events y).map Event.unlined = (events x).map Event.unlined

theorem Movable.behind {x : ι} (h : Movable words events P x) {vs : List Word}
    (hvs : ∀ w ∈ vs, w.Free) : Movable (fun y => vs ++ words y) events P x := by
  intro line
  obtain ⟨y, hy, hwords, hevents⟩ := h fun i => line (i + vs.length)
  refine ⟨y, hy, ?_, hevents⟩
  show vs ++ words y = relined line (vs ++ words x)
  rw [relined_append, relined_free line hvs, hwords]

theorem Movable.before {x : ι} (h : Movable words events P x) {vs : List Word}
    (hvs : ∀ w ∈ vs, w.Free) : Movable (fun y => words y ++ vs) events P x := by
  intro line
  obtain ⟨y, hy, hwords, hevents⟩ := h line
  refine ⟨y, hy, ?_, hevents⟩
  show words y ++ vs = relined line (words x ++ vs)
  rw [relined_append, relined_free _ hvs, hwords]

theorem movable_flatMap {xs : List ι} (h : ∀ x ∈ xs, Movable words events P x) :
    Movable (List.flatMap words) (List.flatMap events) (fun ys => ∀ y ∈ ys, P y) xs := by
  induction xs with
  | nil => exact fun _ => ⟨[], by simp, rfl, rfl⟩
  | cons x xs ih =>
    intro line
    obtain ⟨y, hy, hwords, hevents⟩ := h x List.mem_cons_self line
    obtain ⟨ys, hys, hmore, hothers⟩ := ih (fun x hx => h x (List.mem_cons_of_mem _ hx))
      fun i => line (i + (words x).length)
    refine ⟨y :: ys, List.forall_mem_cons.mpr ⟨hy, hys⟩, ?_, ?_⟩
    · rw [List.flatMap_cons, List.flatMap_cons, relined_append, hwords, hmore]
    · rw [List.flatMap_cons, List.flatMap_cons, List.map_append, List.map_append, hevents, hothers]

theorem listed_cons (sign : TokenKind) (ws : List Word) (wss : List (List Word)) :
    listed sign (ws :: wss) = ws ++ wss.flatMap ([.sign sign] ++ ·) := by
  induction wss generalizing ws with
  | nil => simp [listed]
  | cons vs wss ih =>
    have ih := ih vs
    simp only [listed, List.intercalate_cons_cons, List.flatMap_cons, List.append_assoc] at ih ⊢
    rw [ih]

theorem movable_listed (sign : TokenKind) (hsign : sign.sign.isSome) {xs : List ι}
    (h : ∀ x ∈ xs, Movable words events P x) :
    Movable (fun ys => listed sign (ys.map words)) (List.flatMap events) (fun ys => ∀ y ∈ ys, P y)
      xs := by
  cases xs with
  | nil => exact fun _ => ⟨[], by simp, rfl, rfl⟩
  | cons x xs =>
    rw [List.forall_mem_cons] at h
    have hfree : ∀ w ∈ [Word.sign sign], w.Free := by simpa using Word.free_sign hsign
    intro line
    obtain ⟨y, hy, hwords, hevents⟩ := h.1 line
    obtain ⟨ys, hys, hmore, hothers⟩ := movable_flatMap (fun x hx => (h.2 x hx).behind hfree)
      fun i => line (i + (words x).length)
    refine ⟨y :: ys, List.forall_mem_cons.mpr ⟨hy, hys⟩, ?_, ?_⟩
    · simp only [List.map_cons, listed_cons, List.flatMap_map, relined_append, hwords]
      exact congrArg _ hmore
    · rw [List.flatMap_cons, List.flatMap_cons, List.map_append, List.map_append, hevents, hothers]

/-! ### Members -/

theorem movable_field {f : Written.Field} (h : IsField f) :
    Movable fieldWords fieldEvents IsField f := by
  have hfree : ∀ w ∈ decorations f.modifiers f.annotations ++ fieldRest f, w.Free := by
    rw [List.forall_mem_append]
    exact ⟨free_decorations h.annotations, free_fieldRest h⟩
  exact fun line => ⟨{ f with line := line 0 }, ⟨h.1, h.2, h.3, h.4, h.5, h.6⟩,
    (relined_onLine_free line _ hfree).symm, rfl⟩

theorem movable_method {className : String} {m : Written.Method} (h : IsMethod className m) :
    Movable methodWords methodEvents (IsMethod className) m := by
  have hfree : ∀ w ∈ decorations m.modifiers m.annotations ++ methodHead m, w.Free := by
    rw [List.forall_mem_append]
    exact ⟨free_decorations h.annotations, free_methodHead h⟩
  exact fun line => ⟨{ m with line := line 0 },
    ⟨h.1, h.2, h.3, h.4, h.5, h.6, h.7, h.8, h.9, h.10⟩,
    (relined_onLine_free line _ hfree).symm, rfl⟩

theorem movable_constant {enum : String} {f : Written.Field} (h : IsConstant enum f) :
    Movable constantWords fieldEvents (IsConstant enum) f :=
  fun line => ⟨{ f with line := line 0 }, ⟨h.1, h.2, h.3, h.4, h.5, h.6⟩,
    (relined_onLine_free line _ (free_constant h)).symm, rfl⟩

theorem movable_constants {enum : String} {fs : List Written.Field}
    (h : ∀ f ∈ fs, IsConstant enum f) :
    Movable constantsWords (List.flatMap fieldEvents) (fun fs => ∀ f ∈ fs, IsConstant enum f)
      fs := by
  refine (movable_listed .comma rfl fun f hf => movable_constant (h f hf)).before ?_
  simpa using Word.free_sign rfl

/-! ### Type declarations -/

/-- A member that can be printed. -/
def IsItem (className : String) : Item Declaration → Prop
  | .field f => IsField f
  | .method m => IsMethod className m
  | .type d => IsDeclaration d

theorem movable_item {className : String} {i : Item Declaration} (h : IsItem className i)
    (htype : ∀ d, i = .type d → Movable declarationWords declarationEvents IsDeclaration d) :
    Movable itemWords itemEvents (IsItem className) i := by
  intro line
  cases i with
  | field f =>
    obtain ⟨g, hg⟩ := movable_field h line
    exact ⟨.field g, hg⟩
  | method m =>
    obtain ⟨k, hk⟩ := movable_method h line
    exact ⟨.method k, hk⟩
  | type d =>
    obtain ⟨e, he⟩ := htype d rfl line
    exact ⟨.type e, he⟩

/-- The words of a type declaration up to those of its constants. -/
def openingWords (c : Written.Class) (components : List Written.Parameter) : List Word :=
  decorations c.modifiers c.annotations ++
    (kindWords c.kind ++ (.of c.name :: (headWords c components ++ [.sign .leftBrace])))

/-- The words of the constants that only an enum has. -/
def enumWords (kind : ClassKind) (constants : List Written.Field) : List Word :=
  if kind = .enumType then constantsWords constants else []

theorem declarationWords_mk (c : Written.Class) (components : List Written.Parameter)
    (constants : List Written.Field) (members : List (Item Declaration)) :
    declarationWords ⟨c, components, constants, members⟩ = onLine c.line
      (openingWords c components ++ (enumWords c.kind constants ++
        (members.flatMap itemWords ++ [.sign .rightBrace]))) := by
  simp [declarationWords, wordsAround, openingWords, enumWords, membersWords_eq]

theorem free_openingWords {c : Written.Class} (h : IsHead c) {components : List Written.Parameter}
    (hcomponents : ∀ p ∈ components, IsParameter p) : ∀ w ∈ openingWords c components, w.Free := by
  simp only [openingWords, List.forall_mem_append, List.forall_mem_cons]
  exact ⟨free_decorations h.annotations, free_kindWords _, h.name.free,
    free_headWords h hcomponents, Word.free_sign rfl, by simp⟩

theorem movable_enumWords {kind : ClassKind} {enum : String} {fs : List Written.Field}
    (h : ∀ f ∈ fs, IsConstant enum f) (hnil : kind ≠ .enumType → fs = []) :
    Movable (enumWords kind) (List.flatMap fieldEvents)
      (fun fs => (∀ f ∈ fs, IsConstant enum f) ∧ (kind ≠ .enumType → fs = [])) fs := by
  intro line
  by_cases hkind : kind = .enumType
  · obtain ⟨gs, hgs, hwords, hevents⟩ := movable_constants h line
    refine ⟨gs, ⟨hgs, fun hne => absurd hkind hne⟩, ?_, hevents⟩
    rw [enumWords, enumWords, if_pos hkind, if_pos hkind, hwords]
  · refine ⟨fs, ⟨h, hnil⟩, ?_, rfl⟩
    rw [enumWords, if_neg hkind]
    rfl

theorem unlined_componentEvents (c : Written.Class) (n : Nat) (ps : List Written.Parameter) :
    (componentEvents { c with line := n } ps).map Event.unlined =
      (componentEvents c ps).map Event.unlined := by
  unfold componentEvents
  split
  · rw [List.map_append, List.map_append, List.map_flatMap, List.map_flatMap]
    rfl
  · rfl

theorem movable_declaration {d : Declaration} (h : IsDeclaration d) :
    Movable declarationWords declarationEvents IsDeclaration d := by
  induction h with
  | @mk c components constants members head hcomponents hcomponents_nil hconstants hconstants_nil
      hfields hmethods htypes ih =>
    have hitems : ∀ i ∈ members, IsItem c.name i := by
      intro i hi
      cases i with
      | field f => exact hfields f hi
      | method m => exact hmethods m hi
      | type d => exact htypes d hi
    intro line
    obtain ⟨fs, ⟨hfs, hfs_nil⟩, hfsWords, hfsEvents⟩ :=
      movable_enumWords hconstants hconstants_nil fun i =>
        line (i + (openingWords c components).length)
    obtain ⟨is, his, hisWords, hisEvents⟩ := movable_flatMap
      (fun i hi => movable_item (hitems i hi) (by rintro d rfl; exact ih d hi)) fun i =>
        line (i + (enumWords c.kind constants).length + (openingWords c components).length)
    refine ⟨⟨{ c with line := line 0 }, components, fs, is⟩, ?_, ?_, ?_⟩
    · exact .mk ⟨head.1, head.2, head.3, head.4, head.5, head.6, head.7, head.8, head.9⟩
        hcomponents hcomponents_nil hfs hfs_nil (fun f hf => his _ hf) (fun m hm => his _ hm)
        (fun d hd => his _ hd)
    · have hfree : ∀ w ∈ [Word.sign .rightBrace], w.Free := by simpa using Word.free_sign rfl
      rw [declarationWords_mk, declarationWords_mk, relined_onLine, relined_append,
        relined_free line (free_openingWords head hcomponents), relined_append, relined_append,
        relined_free _ hfree, hfsWords, hisWords]
      rfl
    · simp only [declarationEvents, membersEvents_eq, List.map_cons, List.map_append, hfsEvents,
        hisEvents, unlined_componentEvents]
      rfl

/-! ### Source units -/

theorem movable_package {p : Written.Package} (h : IsPackage p) :
    Movable packageWords (fun p => [.package p]) IsPackage p :=
  fun line => ⟨{ p with line := line 0 }, ⟨h.1, h.2⟩,
    (relined_onLine_free line _ (free_packageRest h)).symm, rfl⟩

theorem movable_import {i : Import} (h : IsDotted i.name) :
    Movable importWords (fun i => [.imports i]) (fun i => IsDotted i.name) i :=
  fun line => ⟨{ i with line := line 0 }, h,
    (relined_onLine_free line _ (free_importRest h)).symm, rfl⟩

theorem movable_package? {package? : Option Written.Package}
    (h : ∀ p ∈ package?, IsPackage p) :
    Movable (fun package? => (package?.map packageWords).getD [])
      (fun package? => package?.toList.map .package) (fun package? => ∀ p ∈ package?, IsPackage p)
      package? := by
  intro line
  cases package? with
  | none => exact ⟨none, h, rfl, rfl⟩
  | some p =>
    obtain ⟨q, hq, hwords, hevents⟩ := movable_package (h p rfl) line
    refine ⟨some q, ?_, hwords, hevents⟩
    rintro _ ⟨rfl⟩
    exact hq

theorem movable_source {s : Source} (h : IsSource s) :
    Movable sourceWords sourceEvents IsSource s := by
  intro line
  obtain ⟨package?, hpackage, hpackageWords, hpackageEvents⟩ := movable_package? h.package? line
  obtain ⟨is, his, hisWords, hisEvents⟩ :=
    movable_flatMap (fun i hi => movable_import (h.imports i hi)) fun i =>
      line (i + ((s.package?.map packageWords).getD []).length)
  obtain ⟨ds, hds, hdsWords, hdsEvents⟩ :=
    movable_flatMap (fun d hd => movable_declaration (h.types d hd)) fun i =>
      line (i + (s.imports.flatMap importWords).length +
        ((s.package?.map packageWords).getD []).length)
  refine ⟨⟨package?, is, ds⟩, ⟨hpackage, his, hds⟩, ?_, ?_⟩
  · rw [sourceWords, sourceWords, relined_append, relined_append, ← hisWords, ← hdsWords]
    exact congrArg (· ++ _) hpackageWords
  · rw [← List.map_eq_flatMap, ← List.map_eq_flatMap] at hisEvents
    simp only [sourceEvents, List.map_cons, List.map_append, hpackageEvents, hisEvents, hdsEvents]

/-- The text of a source unit on as few lines as it can have, with a blank before each word. -/
def print (s : Source) : String := .ofList ((sourceWords s).flatMap fun w => ' ' :: w.text.toList)

/-- Any words can be set apart. -/
theorem laid_spaced (ws : List Word) (n : Nat) :
    Laid n (ws.map Word.anywhere) (ws.flatMap fun w => ' ' :: w.text.toList) := by
  induction ws generalizing n with
  | nil => exact .done (by simp)
  | cons w ws ih =>
    refine .spaced (by simp [Word.anywhere]) ?_ (ih _)
    cases ws with
    | nil => exact fun _ hc => absurd hc (by simp)
    | cons v ws =>
      rintro c ⟨rfl⟩
      decide

theorem laid_print (s : Source) :
    Laid 1 ((sourceWords s).map Word.anywhere) (print s).toList := by
  rw [print, String.toList_ofList]
  exact laid_spaced _ _

/-- Parsing undoes printing. Whatever white space sets the words of a source unit apart, the text is
parsed without an error, and what is told is the unit but for its lines; where the declarations
stand on the lines that the unit says, it is the unit. -/
theorem parse_printed {s : Source} (h : IsSource s) {text : String}
    (hlaid : Laid 1 ((sourceWords s).map Word.anywhere) text.toList) :
    (parse text).error = none ∧
      (parse text).events.map Event.unlined = (sourceEvents s).map Event.unlined ∧
      (Laid 1 (sourceWords s) text.toList → (parse text).events = sourceEvents s) := by
  obtain ⟨line, hlined⟩ := exists_laid_relined hlaid
  obtain ⟨s', hs', hwords, hevents⟩ := movable_source h line
  rw [← hwords] at hlined
  rw [parse_laid hs' hlined]
  refine ⟨rfl, hevents, fun hexact => ?_⟩
  have hparsed := (parse_laid hs' hlined).symm.trans (parse_laid h hexact)
  exact congrArg Parsed.events hparsed

/-- The field `static int[] x = f(1, y);`. -/
def sampleField : Written.Field :=
  ⟨"x", [.isStatic], [], ⟨"int", [], 1⟩, some "f(1, y)", false, 1⟩

/-- The constructor `E(final T... y) { run(y); }`. -/
def sampleMethod : Written.Method :=
  ⟨"E", [], [], [], none, [⟨some "y", ⟨"T", [], 0⟩, [.isFinal], [], true⟩], [], some "run(y);",
    none, 1⟩

/-- The enum `enum J { K, L(2) }`. -/
def sampleEnum : Declaration :=
  ⟨⟨.enumType, "J", [], [], [], [], [], [], 1⟩, [],
    [⟨"K", Grammar.constantModifiers, [], .simple "J", none, true, 1⟩,
      ⟨"L", Grammar.constantModifiers, [], .simple "J", some "2", true, 1⟩], []⟩

/-- A sealed class with these members. -/
def sampleClass : Declaration :=
  ⟨⟨.plainClass, "E", [.isPublic, .isSealed], [⟨"F", none⟩], [⟨"T", [⟨"G", [], 0⟩]⟩],
    [⟨"H", [.extending ⟨"T", [], 1⟩], 0⟩], [], [⟨"I", [], 0⟩], 1⟩, [], [],
    [.field sampleField, .method sampleMethod, .type sampleEnum]⟩

/-- A source unit with this class. -/
def sampleSource : Source := ⟨some ⟨"a.b", [], 1⟩, [⟨"c.D", true, true, 1⟩], [sampleClass]⟩

example : print sampleSource =
    " package a . b ; import static c . D . * ; @ F public sealed class E < T extends G > " ++
    "extends H < ? extends T [ ] > permits I \x7b static int [ ] x = f(1, y) ; " ++
    "E ( final T ... y ) \x7b run(y); \x7d enum J \x7b K , L ( 2 ) ; \x7d \x7d" := by
  decide +kernel

theorem isName_sample : ∀ s ∈ ["x", "E", "y", "J", "K", "L", "T"], IsName s := by
  decide +kernel

theorem isDotted_sample : ∀ s ∈ ["a.b", "c.D", "F", "G", "H", "I", "T"], IsDotted s := by
  decide +kernel

theorem isRaw_sample : IsExpression "f(1, y)" ∧ IsRaw (fun _ => true) "2" ∧
    IsRaw (fun _ => true) "run(y);" := by
  decide +kernel

theorem isField_sampleField : IsField sampleField where
  name := isName_sample _ (by simp [sampleField])
  modifiers := by decide
  annotations := by simp [sampleField]
  type := .primitive (by decide)
  initializer := by
    rintro _ ⟨rfl⟩
    exact isRaw_sample.1
  isEnumConstant := rfl

theorem isType_sample {name : String} (h : name ∈ ["a.b", "c.D", "F", "G", "H", "I", "T"])
    (dims : Nat) : IsType ⟨name, [], dims⟩ :=
  .named (isDotted_sample _ h) (by simp)

theorem isMethod_sampleMethod : IsMethod "E" sampleMethod where
  name := isName_sample _ (by simp [sampleMethod])
  constructor := fun _ => rfl
  modifiers := by decide
  annotations := by simp [sampleMethod]
  typeParameters := by simp [sampleMethod]
  returnType := by simp [sampleMethod]
  parameters := by
    simp only [sampleMethod, List.forall_mem_singleton]
    exact ⟨⟨_, rfl, isName_sample _ (by simp)⟩, by decide, by simp, isType_sample (by simp) 0⟩
  throwing := by simp [sampleMethod]
  body := by
    rintro _ ⟨rfl⟩
    exact isRaw_sample.2.2
  defaultValue := rfl

theorem isDeclaration_sampleEnum : IsDeclaration sampleEnum := by
  refine .mk ⟨isName_sample _ (by simp), .inr (.inr (by decide)), by simp, by simp, by simp,
    by simp, fun _ _ => rfl, by simp, by simp⟩ (by simp) (fun _ => rfl) ?_
    (fun h => absurd rfl h) (by simp) (by simp) (by simp)
  simp only [List.forall_mem_cons, List.not_mem_nil, false_imp_iff, implies_true, and_true]
  refine ⟨⟨isName_sample _ (by simp), by simp, by simp, rfl, rfl, rfl⟩,
    ⟨isName_sample _ (by simp), by simp, ?_, rfl, rfl, rfl⟩⟩
  rintro _ ⟨rfl⟩
  exact isRaw_sample.2.1

theorem isDeclaration_sampleClass : IsDeclaration sampleClass := by
  refine .mk ⟨isName_sample _ (by simp), .inl rfl, ?_, ?_, ?_, fun _ => by decide,
    fun h => absurd rfl h, by simp, ?_⟩ (by simp) (fun _ => rfl) (by simp) (fun _ => rfl)
    (by simpa using isField_sampleField) (by simpa using isMethod_sampleMethod)
    (by simpa using isDeclaration_sampleEnum)
  · simp only [List.forall_mem_singleton]
    exact ⟨isDotted_sample _ (by simp), rfl⟩
  · simp only [List.forall_mem_singleton]
    refine ⟨isName_sample _ (by simp), ?_⟩
    simpa using isType_sample (by simp) 0
  · simp only [List.forall_mem_singleton]
    refine .named (isDotted_sample _ (by simp)) ?_
    simp only [List.forall_mem_singleton]
    rintro _ ⟨rfl⟩
    exact isType_sample (by simp) 1
  · simpa using isType_sample (by simp) 0

theorem isSource_sampleSource : IsSource sampleSource where
  package? := by
    rintro _ ⟨rfl⟩
    exact ⟨isDotted_sample _ (by simp), by simp⟩
  imports := by
    simp only [sampleSource, List.forall_mem_singleton]
    exact isDotted_sample _ (by simp)
  types := by simpa [sampleSource] using isDeclaration_sampleClass

theorem parse_printed_sampleSource :
    (parse (print sampleSource)).error = none ∧
      (parse (print sampleSource)).events.map Event.unlined =
        (sourceEvents sampleSource).map Event.unlined ∧
      (Laid 1 (sourceWords sampleSource) (print sampleSource).toList →
        (parse (print sampleSource)).events = sourceEvents sampleSource) :=
  parse_printed isSource_sampleSource (laid_print _)

end Printing

end JavaModel
