import JavaModel.Proofs.Printing.Lines

/-! Fields declared together. A class of two fields, of which the first has an initializer, is told
with the initializer as it stands, whatever expression it is, so long as no comma of it divides
it. -/

namespace JavaModel.Printing

open Grammar Reader Lexer

/-- An initializer and the comma behind it. -/
theorem pieces_comma {text : String} (h : IsUndivided text) :
    (Word.of (text ++ ",")).Clean ∧ (Word.of (text ++ ",")).pieces =
      (Word.of text).pieces ++ [⟨.comma, ",", some "", []⟩] := by
  have hreading : Plain .start text.toList := h.reading
  have hgap : (passed .start text.toList).gap = [] := hreading.passed_gap_nil (fun _ => rfl) h.last
  have hcomma : run (passed .start text.toList) [','] =
      ⟨[(passed .start text.toList).token ',' []], none⟩ :=
    run_token hreading.passed_pending rfl rfl
  have hlex : lex (text ++ ",") =
      ⟨(lex text).tokens ++ [(passed .start text.toList).token ',' []], none⟩ := by
    have happend : run .start (text.toList ++ [',']) = _ :=
      hreading.run_append (apart_cons (by decide) [])
    rw [hcomma] at happend
    rw [lex, String.toList_append]
    exact happend
  obtain ⟨c, cs, hfirst, hc, -⟩ := h.begins
  have hfirst : text.toList = c :: cs := hfirst
  constructor
  · refine ⟨by rw [Word.of, hlex], fun t ht => ?_, by simp [Word.of], ?_⟩
    · rw [Word.of, hlex, List.mem_append, List.mem_singleton] at ht
      rcases ht with ht | rfl
      · exact h.plain t ht
      · rfl
    · simp [Word.of, hfirst, hc]
  · have htoken : (⟨.comma, ",", some "", []⟩ : Piece) =
        ⟨((passed .start text.toList).token ',' []).kind,
          ((passed .start text.toList).token ',' []).text,
          some ((passed .start text.toList).token ',' []).gap, []⟩ := by
      simp only [State.token, hgap]
      rfl
    have hne := h.pieces_ne_nil
    simp only [Word.pieces, Word.of, hlex] at hne ⊢
    cases htokens : (lex text).tokens with
    | nil => simp [htokens] at hne
    | cons t ts => simp [htoken]

/-- A class with two fields declared together, the first with an initializer. -/
def twoFields (initializer : String) : String :=
  "class C \x7b Object f = " ++ initializer ++ ", g; \x7d"

/-- A field of objects. -/
def objectField (name : String) (initializer : Option String) : Written.Field :=
  ⟨name, [], [], .simple "Object", initializer, false, 1⟩

/-- The class of the two fields. -/
def fieldsClass : Written.Class := ⟨.plainClass, "C", [], [], [], [], [], [], 1⟩

/-- What the two fields tell. -/
def twoFieldsEvents (initializer : String) : List Event :=
  fieldEvents (objectField "f" (some initializer)) ++ fieldEvents (objectField "g" none)

/-- The words of the two fields, on any line. -/
def twoFieldsRest (initializer : String) : List Word :=
  [.of "Object", .of "f", .sign .equals, .of (initializer ++ ","), .of "g;"]

/-- The words of the two fields. -/
def twoFieldsWords (initializer : String) : List Word :=
  onLine 1 (decorations [] [] ++ twoFieldsRest initializer)

/-- The names of the class, of the type and of the first field, and the end of the second. -/
theorem written_twoFields : (∀ s ∈ ["C", "Object", "f"], IsName s) ∧ IsDotted "Object" ∧
    (Word.of "g;").Clean ∧ (Word.of "g;").pieces =
      [⟨.identifier, "g", none, []⟩, ⟨.semicolon, ";", some "", []⟩] := by
  decide +kernel

theorem isName_fields : IsName "C" ∧ IsName "Object" ∧ IsName "f" := by
  simpa using written_twoFields.1

theorem isType_object : IsType (.simple "Object") := .named written_twoFields.2.1 (by simp)

theorem clean_twoFields {text : String} (h : IsUndivided text) :
    ∀ w ∈ twoFieldsRest text, w.Clean := by
  obtain ⟨-, hobject, hf⟩ := isName_fields
  simp only [twoFieldsRest, List.forall_mem_cons]
  exact ⟨hobject.free.toClean, hf.free.toClean, (Word.free_sign rfl).toClean, (pieces_comma h).1,
    written_twoFields.2.2.1, by simp⟩

theorem spell_twoFields {text : String} (h : IsUndivided text) :
    spell (twoFieldsRest text) = spell (typeWords (.simple "Object")) ++
      ⟨.identifier, "f", none, []⟩ :: (spell (initializerWords (some text)) ++
        [⟨.comma, ",", some "", []⟩, ⟨.identifier, "g", none, []⟩,
          ⟨.semicolon, ";", some "", []⟩]) := by
  have hobject : typeWords (.simple "Object") = [.of "Object"] := rfl
  rw [hobject]
  simp only [twoFieldsRest, initializerWords, spell_cons, spell_nil, isName_fields.2.2.pieces,
    (pieces_comma h).2, written_twoFields.2.2.2, List.append_nil, List.append_assoc, List.cons_append,
    List.nil_append]

/-- The two declarators are read one after the other. -/
theorem reads_twoDeclarators {text : String} (h : IsUndivided text) :
    Reads (declarators ⟨⟨[], []⟩, none, 1⟩ (.simple "Object") "f")
      (spell (initializerWords (some text)) ++ [⟨.comma, ",", some "", []⟩,
        ⟨.identifier, "g", none, []⟩, ⟨.semicolon, ";", some "", []⟩])
      (fun _ => True) (twoFieldsEvents text) () := by
  refine .recurse fun n hn => ?_
  simp only [List.length_append, List.length_cons] at hn
  match n, hn with
  | n + 2, _ =>
    have hsecond : Reads
        (unroll (declaratorsBody ⟨⟨[], []⟩, none, 1⟩ (.simple "Object")) (n + 1) "g")
        (spell (initializerWords none) ++ [⟨.semicolon, ";", some "", []⟩]) (fun _ => True)
        (fieldEvents (objectField "g" none) ++ []) () := by
      refine reads_declarator rfl (by simp) (.inr rfl) ?_
      exact .look (.accept_false .comma) (fun more _ => by simp) (.step (.expect rfl _) (.pure _))
    refine reads_declarator rfl (fun _ ht => by cases ht; exact h) (.inl rfl) ?_
    rw [List.append_nil] at hsecond
    exact .step (.accept_true rfl) (.step (.identifier rfl _) hsecond)

theorem begins_twoFields {text : String} (h : IsUndivided text) :
    BeginsMember (spell (twoFieldsRest text)) := by
  rw [spell_twoFields h]
  exact .inr (isType_object.begins.append _)

/-- Both fields are one member. -/
theorem reads_twoFields {text : String} (h : IsUndivided text) (readClass : ReadClass) :
    Reads (member readClass .plainClass "C") (spell (twoFieldsWords text)) (fun _ => True)
      (twoFieldsEvents text) () := by
  refine reads_member (by simp) (clean_twoFields h) (by simp) (begins_twoFields h) ?_
  rw [spell_twoFields h]
  have hnone : Reads typeParameters [] (fun more => kindOf more 0 ≠ some .less) [] [] :=
    .look (.accept_false .less) (fun _ hmore => hmore) (.pure _)
  refine .look hnone (fun more _ => ?_) ?_
  · rw [List.append_assoc]
    exact isType_object.begins.kind_ne (by decide) (by decide) _
  · exact reads_memberTail isType_object (.look (.atKind .leftParen false)
      (fun more _ => by simp (disch := decide) [initializerWords]) (reads_twoDeclarators h))

/-- The words of the class behind its name. -/
def twoFieldsBody (initializer : String) : List Word :=
  .sign .leftBrace :: (twoFieldsWords initializer ++ [.sign .rightBrace])

/-- The words of the class, on any line. -/
def fieldsClassRest (initializer : String) : List Word :=
  kindWords .plainClass ++ (.of "C" :: (headWords fieldsClass [] ++ twoFieldsBody initializer))

/-- The words of the class. -/
def fieldsClassWords (initializer : String) : List Word :=
  onLine 1 (decorations [] [] ++ fieldsClassRest initializer)

/-- What the class tells. -/
def fieldsClassEvents (initializer : String) : List Event :=
  .beginClass fieldsClass :: (twoFieldsEvents initializer ++ [.endClass])

theorem isHead_fieldsClass : IsHead fieldsClass where
  name := isName_fields.1
  modifiers := by simp [fieldsClass]
  annotations := by simp [fieldsClass]
  typeParameters := by simp [fieldsClass]
  extending := by simp [fieldsClass]
  implementing := by simp [fieldsClass]
  permitting := by simp [fieldsClass]
  superclass := by simp [fieldsClass]
  superless := by simp [fieldsClass]

/-- The class is read with its two fields. -/
theorem reads_fieldsClass {text : String} (h : IsUndivided text) {n : Nat} (hn : 0 < n) :
    Reads (unroll classBodyOf n (.plainClass, ⟨⟨[], []⟩, none, 1⟩)) (spell (fieldsClassRest text))
      (fun _ => True) (fieldsClassEvents text) () := by
  match n, hn with
  | n + 1, _ =>
    have hmembers : Reads (recurse (membersBody (unroll classBodyOf n) .plainClass "C") ())
        (spell (twoFieldsWords text ++ [.sign .rightBrace])) (fun _ => True)
        (twoFieldsEvents text) () := by
      refine .recurse fun m hm => ?_
      have hbegins : ∀ i ∈ [()], ∀ more,
          BeginsItem (spell ((fun _ => twoFieldsWords text) i) ++ more) :=
        fun _ _ more => beginsItem_of_member (by simp) (begins_twoFields h) 1 more
      simpa using reads_members hbegins (fun _ _ => reads_twoFields h _) (by simpa using hm)
    have hbrace : kindOf (spell (twoFieldsBody text)) 0 = some .leftBrace := by
      rw [twoFieldsBody, spell_cons, pieces_sign rfl]
      rfl
    have hnone : ∀ f ∈ ([] : List Written.Field), IsConstant "C" f := by simp
    exact reads_head isHead_fieldsClass (by simp) (fun _ => rfl) hbrace
      (reads_classBody hnone (fun _ => rfl) hmembers)

/-! ### The text of the class -/

theorem clean_fieldsClassRest {text : String} (h : IsUndivided text) :
    ∀ w ∈ fieldsClassRest text, w.Clean := by
  have hheads : headWords fieldsClass [] = [] := rfl
  simp only [fieldsClassRest, twoFieldsBody, hheads, kindWords, List.forall_mem_append,
    List.forall_mem_cons]
  exact ⟨⟨(Word.free_sign rfl).toClean, by simp⟩, isName_fields.1.free.toClean, by simp,
    (Word.free_sign rfl).toClean, Clean.onLine (clean_twoFields h) 1, (Word.free_sign rfl).toClean,
    by simp⟩

/-- The text of the class is its words with a blank between them. -/
theorem toList_twoFields (text : String) : (twoFields text).toList = "class".toList ++
    ["C", "\x7b", "Object", "f", "=", text ++ ",", "g;", "\x7d"].flatMap
      fun w => ' ' :: w.toList := by
  unfold twoFields
  simp

theorem laid_twoFields (text : String) :
    Laid 1 (fieldsClassWords text) (twoFields text).toList := by
  have hblank : ∀ cs, Breaks (' ' :: cs) := by
    rintro cs c ⟨rfl⟩
    decide
  -- Behind the line that the fields begin on, no word asks for its line.
  have hback : ∀ n, Laid n [.of "f", .sign .equals, .of (text ++ ","), .of "g;", .sign .rightBrace]
      _ := laid_spaced [.of "f", .sign .equals, .of (text ++ ","), .of "g;", .sign .rightBrace]
  have hfields : Laid 1 (onLine 1 (twoFieldsRest text) ++ [.sign .rightBrace]) _ :=
    .spaced (by simp [Word.onLine, Word.of]) (hblank _) (hback _)
  have hhead : Laid 1 (.of "C" :: .sign .leftBrace :: _) _ :=
    .spaced (by simp [Word.of]) (hblank _)
      (.spaced (by simp [Word.sign, Word.of]) (hblank _) hfields)
  rw [toList_twoFields]
  show Laid 1 _ ([] ++ "class".toList ++ _)
  exact .word (by simp) (by simp [Word.onLine, Word.sign, Word.of]) (hblank _) hhead

/-! ### The class as a source unit -/

theorem kindOf_fieldsClass (text : String) :
    kindOf (spell (fieldsClassRest text)) 0 = some .classWord := by
  rw [fieldsClassRest, kindWords, List.cons_append, spell_cons, pieces_sign rfl]
  rfl

theorem reads_fieldsDeclaration {text : String} (h : IsUndivided text) :
    Reads (recurse declarationsBody ()) (spell (fieldsClassWords text)) (fun more => more = [])
      (fieldsClassEvents text) () := by
  have hclean := clean_fieldsClassRest h
  have hread : Reads typeDeclaration (spell (fieldsClassWords text)) (fun _ => True)
      (fieldsClassEvents text) () :=
    reads_declared isHead_fieldsClass hclean
      (.recurse fun _ hn => reads_fieldsClass h (Nat.zero_lt_of_lt hn))
  have hmodule : ∀ more ls, Spelled (spell (fieldsClassWords text) ++ more) ls →
      startsModule ls = false := fun _ _ hls =>
    startsModule_kindWords isHead_fieldsClass (hls.onLine hclean (List.cons_ne_nil _ _)).1
  have hunit : Reads (recurse declarationsBody ())
      (spell ([()].flatMap fun _ => fieldsClassWords text)) (fun more => more = [])
      ([()].flatMap fun _ => fieldsClassEvents text) () :=
    .recurse fun _ hn => reads_declarations
      (fun _ _ => beginsItem_of_start (by simp) (by decide) (kindOf_fieldsClass text) 1)
      (fun _ _ => hmodule) (fun _ _ => hread) hn
  simpa using hunit

theorem reads_fieldsUnit {text : String} (h : IsUndivided text) :
    Reads compilationUnit (spell (fieldsClassWords text)) (fun more => more = [])
      (.beginSource :: (fieldsClassEvents text ++ [.endSource])) () := by
  have hfirst : ∀ more, kindOf (spell (fieldsClassWords text) ++ more) 0 = some .classWord := by
    intro more
    rw [fieldsClassWords, kindOf_onLine]
    exact kindOf_append (kindOf_fieldsClass text) more
  have hnone : ∀ i ∈ ([] : List Import), IsDotted i.name := by simp
  refine .tell _ (.look reads_noPackage (fun more _ => ?_) ?_)
  · exact beginsNoPackage_of_kind ⟨by simp [hfirst], by simp [hfirst], by simp [hfirst]⟩
      (by simp [hfirst])
  · have hkind := hfirst []
    rw [List.append_nil] at hkind
    exact reads_unpackaged hnone (by simp [hkind]) (reads_fieldsDeclaration h)

/-- The class, whatever its initializer is that nothing divides, is told with that initializer. -/
theorem parse_twoFields {text : String} (h : IsUndivided text) :
    parse (twoFields text) = ⟨.beginSource :: (fieldsClassEvents text ++ [.endSource]), none⟩ :=
  parse_of_reads (reads_fieldsUnit h) (Clean.onLine (clean_fieldsClassRest h) 1)
    (laid_twoFields text)

end JavaModel.Printing
