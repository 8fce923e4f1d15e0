import JavaModel.Proofs.Grammar.Ending
import JavaModel.Proofs.Grammar.Members
import JavaModel.Proofs.Grammar.Reread

/-! Where the raw texts of a source unit stand. Each is what stands in the text between two
brackets, or an expression up to the sign behind it, next to the declaration that it belongs to,
and reads by itself as the tokens that it is made of. -/

namespace JavaModel

open Grammar Reader

variable {text raw : String} {b : Bracket} {ls rest : List Lexeme}

/-! ### Groups and expressions -/

/-- Lexemes of a text begin with a group in brackets: up to the one that closes the first, as many
are opened as closed, and never fewer. Its raw text is what stands between the two, trimmed. What
stands there reads as the tokens of the group, and so does the raw text, unless trimming takes a
part of one. -/
structure IsGroup (text : String) (b : Bracket) (raw : String) (ls rest : List Lexeme) : Prop where
  place : ls <:+ lexemes text
  reads : ∃ o inner close, ls = o :: (inner ++ close :: rest) ∧ o.kind = b.opening ∧
    close.kind = b.closing ∧ Covered (· = b.opening) (· = b.closing) 0 inner ∧
    inner.countP (·.kind = b.opening) = inner.countP (·.kind = b.closing) ∧
    raw = Text.trim (Text.slice text o.stop close.start) ∧
    Rereads (Text.slice text o.stop close.start) inner ∧ (Lexeme.Edged inner → Rereads raw inner)

/-- Lexemes of a text begin with an expression, and a comma or a semicolon stands behind it. Its raw
text reaches from the first token to the last, and reads as these. -/
structure IsExpression (text : String) (raw : String) (ls rest : List Lexeme) : Prop where
  place : ls <:+ lexemes text
  ended : IsEnd rest
  reads : ∃ first inner last, ls = first :: inner ++ rest ∧
    splitExpression ⟨0, 0, none⟩ ls = (first :: inner, rest) ∧
    last ∈ (first :: inner).getLast? ∧ raw = Text.slice text first.start last.stop ∧
    Rereads raw (first :: inner)

/-- Up to the closing bracket as many pairs are closed as are open or opened. -/
theorem countP_splitClosing {depth : Nat} {inner : List Lexeme} {close : Lexeme}
    (h : splitClosing b depth ls = some (inner, close, rest)) :
    depth + inner.countP (·.kind = b.opening) = inner.countP (·.kind = b.closing) := by
  have hne : b.closing ≠ b.opening := by cases b <;> decide
  induction ls generalizing depth inner with
  | nil => cases h
  | cons l ls ih =>
    rw [splitClosing_cons] at h
    cases hafter : b.after? depth l.kind with
    | none =>
      rw [hafter] at h
      cases h
      rw [(after?_eq_none hafter).1]
      rfl
    | some next =>
      rw [hafter] at h
      obtain ⟨⟨front, close', rest'⟩, hsplit, heq⟩ := Option.map_eq_some_iff.mp h
      cases heq
      have hcount := ih hsplit
      simp only [List.countP_cons]
      unfold Bracket.after? at hafter
      by_cases hopen : l.kind = b.opening
      · rw [if_pos hopen] at hafter
        cases hafter
        simp only [hopen, decide_true, if_true, decide_eq_true_eq, hne.symm, if_false]
        omega
      · rw [if_neg hopen] at hafter
        by_cases hclose : l.kind = b.closing
        · rw [if_pos hclose] at hafter
          cases depth with
          | zero => cases hafter
          | succ depth =>
            cases hafter
            simp only [hclose, hne, decide_false, decide_true, if_true, Bool.false_eq_true,
              if_false]
            omega
        · rw [if_neg hclose] at hafter
          cases hafter
          simpa [hopen, hclose] using hcount

theorem isGroup_of_enclosed {told : List Event} (hls : ls <:+ lexemes text)
    (hopen : Lexeme.kindAt ls 0 = some b.opening) (h : enclosed b ls = (told, .ok (raw, rest))) :
    IsGroup text b raw ls rest := by
  obtain ⟨-, o, inner, close, rfl, hsplit, hclose, rfl⟩ := enclosed_ok h
  obtain ⟨-, hslice⟩ := slice_between hls
  have ho : o.kind = b.opening := by simpa [Lexeme.kindAt] using hopen
  obtain ⟨front, hfront⟩ := hls
  have hreads := Lexeme.rereads_between hfront.symm
  refine ⟨⟨front, hfront⟩, o, inner, close, rfl, ho, hclose, covered_splitClosing hsplit, ?_, ?_⟩
  · rw [← countP_splitClosing hsplit, Nat.zero_add]
  · rw [hslice]
    exact ⟨rfl, hreads⟩

theorem isExpression_of_expression {told : List Event} (hls : ls <:+ lexemes text)
    (h : expression ls = (told, .ok (raw, rest))) (hended : IsEnd rest) :
    IsExpression text raw ls rest := by
  obtain ⟨-, inner, happend, hsplit, hinner, -, rfl⟩ := expression_ok h
  obtain ⟨first, inner, rfl⟩ := List.exists_cons_of_ne_nil hinner
  subst happend
  have hlast := List.getLast?_eq_some_getLast hinner
  obtain ⟨-, hslice⟩ := slice_from hls hlast
  obtain ⟨front, hfront⟩ := hls
  exact ⟨⟨front, hfront⟩, hended, first, inner, _, rfl, hsplit, hlast, hslice.symm,
    Lexeme.rereads_from hfront.symm⟩

/-! ### The raw texts of declarations -/

/-- The arguments of an annotation are a group behind its name. -/
def IsNote (text : String) (a : AnnotationUse String) : Prop :=
  ∀ raw ∈ a.args, ∃ name ls rest, name <:+ lexemes text ∧
    qualifiedName name = ([], .ok (a.type, ls)) ∧ IsGroup text .paren raw ls rest

def AreNotes (text : String) (notes : List (AnnotationUse String)) : Prop :=
  ∀ a ∈ notes, IsNote text a

/-- The arguments of an enum constant are a group behind its name. Any other field is set to an
expression behind its name, pairs of brackets and the equals sign. -/
def IsInitializer (text : String) (f : Written.Field) : Prop :=
  ∀ raw ∈ f.initializer, ∃ name ls rest, name.text = f.name ∧
    if f.isEnumConstant then name :: ls <:+ lexemes text ∧ IsGroup text .paren raw ls rest
    else ∃ pairs equals, name :: (pairs ++ equals :: ls) <:+ lexemes text ∧
      (∀ l ∈ pairs, l.kind = .leftBracket ∨ l.kind = .rightBracket) ∧ equals.kind = .equals ∧
      IsExpression text raw ls rest

/-- A method has neither a body nor a default value, or both stand behind its name: the default
value is an expression behind its word, and the body a group behind the parameters, the types thrown
and the default value. -/
def IsMethod (text : String) (m : Written.Method) : Prop :=
  m.body = none ∧ m.defaultValue = none ∨
    ∃ name ls rest extra, name.text = m.name ∧ name :: ls <:+ lexemes text ∧
      methodFront ls = ([], .ok (⟨m.parameters, extra, m.throwing, m.defaultValue⟩, rest)) ∧
      (∀ raw ∈ m.defaultValue, ∃ word ls, word :: ls <:+ lexemes text ∧
        word.kind = .modifier .isDefault ∧ IsExpression text raw ls rest) ∧
      ∀ raw ∈ m.body, ∃ behind, IsGroup text .brace raw rest behind

/-- The raw texts that an event tells stand in the text where they belong. -/
def Event.RawIn (text : String) : Event → Prop
  | .package p => AreNotes text p.annotations
  | .beginClass c => AreNotes text c.annotations
  | .beginField f => AreNotes text f.annotations ∧ IsInitializer text f
  | .beginMethod m => AreNotes text m.annotations ∧
      (∀ p ∈ m.parameters, AreNotes text p.annotations) ∧ IsMethod text m
  | _ => True

/-- All raw texts that events tell stand in the text where they belong. -/
def RawIn (text : String) (told : List Event) : Prop := ∀ e ∈ told, e.RawIn text

theorem rawIn_append {told more : List Event} (h : RawIn text told) (hmore : RawIn text more) :
    RawIn text (told ++ more) :=
  List.forall_mem_append.mpr ⟨h, hmore⟩

instance : Joins fun _ told _ => RawIn text told where
  quiet _ := fun _ he => absurd he List.not_mem_nil
  append := rawIn_append

/-! ### What tells them -/

theorem rawIn_singleton {e : Event} (h : e.RawIn text) : RawIn text [e] :=
  List.forall_mem_singleton.mpr h

theorem rawIn_ofDoc (doc : Option String) (target : DocTarget) :
    RawIn text (Event.ofDoc doc target) := by
  cases doc with
  | none => exact fun _ he => absurd he List.not_mem_nil
  | some _ => exact rawIn_singleton trivial

theorem rawIn_ofField {f : Written.Field} (h : (Event.beginField f).RawIn text)
    (doc : Option String) : RawIn text (Event.ofField doc f) :=
  rawIn_append (rawIn_ofDoc doc _) (List.forall_mem_cons.mpr ⟨h, rawIn_singleton trivial⟩)

theorem rawIn_ofMethod {m : Written.Method} (h : (Event.beginMethod m).RawIn text)
    (doc : Option String) : RawIn text (Event.ofMethod doc m) :=
  rawIn_append (rawIn_ofDoc doc _) (List.forall_mem_cons.mpr ⟨h, rawIn_singleton trivial⟩)

/-- The members that a record has by its head have raw texts in the annotations of its components
only. -/
theorem rawIn_ofRecord {components : List Written.Parameter}
    (h : ∀ p ∈ components, AreNotes text p.annotations) (c : Written.Class) :
    RawIn text (Event.ofRecord c components) := by
  unfold Event.ofRecord
  split
  · refine rawIn_append (fun e he => ?_) (rawIn_ofMethod ⟨?_, h, .inl ⟨rfl, rfl⟩⟩ none)
    · obtain ⟨p, hp, he⟩ := List.mem_flatMap.mp he
      obtain ⟨name, -, he⟩ := List.mem_flatMap.mp he
      exact rawIn_ofField ⟨h p hp, fun _ hraw => by cases hraw⟩ none e he
    · exact fun _ ha => absurd ha List.not_mem_nil
  · exact fun _ he => absurd he List.not_mem_nil

/-- An annotation is read with a group behind its name. -/
theorem isNote_of_annotationUse {a : AnnotationUse String} (hls : ls <:+ lexemes text)
    (h : annotationUse ls = ([], .ok (a, rest))) : IsNote text a := by
  have hbehind := (List.drop_suffix 1 ls).trans hls
  rw [annotationUse, bind_quiet (p := skip 1) rfl] at h
  obtain ⟨name, middle, hname, h₁⟩ := silent_qualifiedName.bind_ok h
  have hmiddle := (proceeds_qualifiedName.taken _ _ _ hname).1.trans hbehind
  rw [bind_quiet (p := atKind .leftParen) rfl] at h₁
  by_cases hparen : Lexeme.kindAt middle 0 = some .leftParen
  · rw [decide_eq_true hparen, if_pos rfl] at h₁
    obtain ⟨raw, behind, hgroup, h₂⟩ := (silent_enclosed _).bind_ok h₁
    cases h₂
    rintro raw ⟨⟩
    exact ⟨_, _, _, hbehind, hname, isGroup_of_enclosed (b := .paren) hmiddle hparen hgroup⟩
  · rw [decide_eq_false hparen, if_neg Bool.false_ne_true] at h₁
    cases h₁
    exact fun _ hraw => by cases hraw

theorem isInitializer_of_fieldAt {f : Written.Field} {name : Lexeme}
    (hls : name :: ls <:+ lexemes text) (h : FieldAt f name ls rest) : IsInitializer text f := by
  intro raw hraw
  have hbehind := (List.suffix_cons name ls).trans hls
  cases hkind : f.isEnumConstant with
  | true =>
    obtain ⟨hopen, henclosed⟩ := h.arguments hkind raw hraw
    exact ⟨name, ls, rest, h.name, hls, isGroup_of_enclosed hbehind hopen henclosed⟩
  | false =>
    obtain ⟨hend, hexpression⟩ := h.expression hkind
    obtain ⟨pairs, equals, behind, rfl, hpairs, hequals, hrun⟩ := hexpression raw hraw
    refine ⟨name, behind, rest, h.name, pairs, equals, hls, hpairs, hequals, ?_⟩
    refine isExpression_of_expression ?_ hrun hend
    exact ((List.suffix_cons equals behind).trans (List.suffix_append pairs _)).trans hbehind

theorem isMethod_of_methodAt {m : Written.Method} {name : Lexeme}
    (hls : name :: ls <:+ lexemes text) (h : MethodAt m name ls rest) : IsMethod text m := by
  obtain ⟨extra, middle, hfront, hbody⟩ := h.reads
  have hbehind := (List.suffix_cons name ls).trans hls
  obtain ⟨hmiddle, -, hvalue⟩ := methodFront_ok hfront
  obtain ⟨-, hend, hgroup⟩ := methodBody_ok hbody
  refine .inr ⟨name, ls, middle, extra, h.name, hls, hfront, fun raw hraw => ?_, fun raw hraw => ?_⟩
  · obtain ⟨word, behind, hplace, hword, hrun⟩ := hvalue raw hraw
    have hplace := hplace.trans hbehind
    refine ⟨word, behind, hplace, hword, isExpression_of_expression
      ((List.suffix_cons word behind).trans hplace) hrun (hend.resolve_left ?_)⟩
    -- Behind the default value only the semicolon can stand.
    obtain ⟨-, inner, -, hsplit, -⟩ := expression_ok hrun
    have hbrace := splitExpression_leftBrace ⟨0, 0, none⟩ behind
    rwa [hsplit] at hbrace
  · obtain ⟨hopen, henclosed⟩ := hgroup raw hraw
    exact ⟨rest, isGroup_of_enclosed (hmiddle.trans hbehind) hopen henclosed⟩

/-- Every declaration of a text tells raw texts that stand where they belong. -/
theorem keptMembers_rawIn :
    KeptMembers (lexemes text) (fun _ told _ => RawIn text told) (IsNote text) where
  annotation := isNote_of_annotationUse
  beginSource _ := rawIn_singleton trivial
  package _ hnotes := rawIn_append (rawIn_ofDoc _ _) (rawIn_singleton hnotes)
  imports := rawIn_singleton trivial
  head _ _ hnotes hcomponents := rawIn_append (rawIn_ofDoc _ _)
    (List.forall_mem_cons.mpr ⟨hnotes, rawIn_ofRecord (fun p hp => (hcomponents p hp).2) _⟩)
  field hls hfield hnotes := rawIn_ofField ⟨hnotes, isInitializer_of_fieldAt hls hfield⟩ _
  method hls hmethod hnotes hparameters :=
    rawIn_ofMethod ⟨hnotes, hparameters, isMethod_of_methodAt hls hmethod⟩ _
  endClass _ := rawIn_singleton trivial
  endSource _ := rawIn_singleton trivial

/-- Every raw text that a text tells is what stands in it between two brackets, or an expression up
to the comma or the semicolon behind it, next to the declaration that it belongs to. It reads by
itself as the tokens it is made of, where white space around it is not part of one. -/
theorem rawIn_parse (text : String) (h : (parse text).error = none) :
    RawIn text (parse text).events := by
  obtain ⟨-, hraw⟩ := keptMembers_rawIn.keptParts.parse h
  exact hraw

/-- A unit that tells raw texts of every kind. -/
theorem rawIn_parse_enum :
    let text := "@A(1) enum E \x7b X(2); int i = new M<a, b>(3), j; " ++
      "@B() int f() default 4; void g() \x7b /* none */ \x7d \x7d"
    (parse text).error = none ∧ RawIn text (parse text).events := by
  intro text
  have h : (parse text).error = none := by decide +kernel
  exact ⟨h, rawIn_parse text h⟩

/-- A no-break space is read as a name and trimmed as white space, so that the raw text of a body
that consists of one is empty. -/
theorem not_rereads_body :
    (parse "class A \x7b void f() \x7b \u00a0 \x7d \x7d").error = none ∧
    (parse "class A \x7b void f() \x7b \u00a0 \x7d \x7d").events.filterMap
      (fun | .beginMethod m => m.body | _ => none) = [""] ∧
    ((lexemes "class A \x7b void f() \x7b \u00a0 \x7d \x7d").drop 7).map Lexeme.form =
      [(.leftBrace, "\x7b"), (.identifier, "\u00a0"), (.rightBrace, "\x7d"),
        (.rightBrace, "\x7d")] ∧
    ¬ Rereads "" (((lexemes "class A \x7b void f() \x7b \u00a0 \x7d \x7d").drop 8).take 1) := by
  decide +kernel

end JavaModel
