import JavaModel.Proofs.Grammar.PackageNames
import JavaModel.Proofs.Printing.Types
import JavaModel.Proofs.Token.Separation

/-! Types rendered as text. In the text of a type the tokens touch, and still it reads as the words
that print the type with white space between each two. -/

namespace JavaModel

namespace Lexer

/-! ### Tokens that touch -/

variable {rest : List Char} {fs : List (TokenKind × String)}

/-- Wherever a token may begin, a text reads without an error as tokens of certain kinds and
texts. -/
def Yields (cs : List Char) (fs : List (TokenKind × String)) : Prop :=
  ∀ s : State, s.pending = 0 → (run s cs).error = none ∧ (run s cs).tokens.map form = fs

theorem yields_nil : Yields [] [] := fun _ _ => ⟨rfl, rfl⟩

theorem Yields.space (h : Yields rest fs) {c : Char} (hc : isSpace c) : Yields (c :: rest) fs := by
  intro s hs
  rw [run_space hs hc]
  exact h _ hs

/-- A token that takes just the front of a text goes before those of the rest. -/
theorem Yields.token (h : Yields rest fs) {c : Char} (front : List Char) {k : TokenKind}
    (hc : isSpace c = false) (hlexeme : lexeme c (front ++ rest) = (k, .whole (front.length + 1))) :
    Yields (c :: (front ++ rest)) ((k, .ofList (c :: front)) :: fs) := by
  intro s hs
  have hpending : (s.begun c (front ++ rest)).pending = front.length := by
    simp only [State.begun, hlexeme, Extent.whole, Nat.add_sub_cancel]
  obtain ⟨s', hs', hpass⟩ := @run_pass rest _ _ hpending
  obtain ⟨herror, hforms⟩ := h s' hs'
  rw [run_token hs hc (by rw [hlexeme]; rfl), hpass]
  refine ⟨herror, ?_⟩
  rw [List.map_cons, hforms, State.token, hlexeme]
  simp [form, Extent.whole]

/-- A sign that is a token whatever follows it. -/
theorem Yields.sign (h : Yields rest fs) {c : Char} {k : TokenKind} (hc : isSpace c = false)
    (hlexeme : ∀ cs, lexeme c cs = (k, .whole 1)) : Yields (c :: rest) ((k, .ofList [c]) :: fs) :=
  h.token [] hc (hlexeme rest)

theorem isFullWord_of_all {text : String}
    (h : text.toList.head?.any isWordStart && text.toList.all isWordPart) :
    IsFullWord text := by
  rw [Bool.and_eq_true] at h
  obtain ⟨c, hc, hstart⟩ := (Option.any_eq_true _ _).mp h.1
  refine ⟨⟨fun hnil => ?_, List.all_eq_true.mp h.2⟩, fun d hd => ?_⟩
  · simp [hnil] at hc
  · cases hc.symm.trans hd
    exact hstart

theorem isSpace_of_isWordStart {c : Char} (h : isWordStart c) : isSpace c = false := by
  cases hspace : isSpace c with
  | false => rfl
  | true =>
    have hcases : c = ' ' ∨ c = '\t' ∨ c = '\r' ∨ c = '\n' ∨ c = '\x0c' := by
      simpa [isSpace, or_assoc] using hspace
    rcases hcases with rfl | rfl | rfl | rfl | rfl <;> revert h <;> decide

theorem isDigit_of_isWordStart {c : Char} (h : isWordStart c) : isDigit c = false := by
  cases hdigit : isDigit c with
  | false => rfl
  | true =>
    have hnine : ('9' : Char).val.toNat = 57 := rfl
    have hsmall : ('a' : Char).val.toNat = 97 := rfl
    have hcapital : ('A' : Char).val.toNat = 65 := rfl
    simp only [isDigit, Bool.and_eq_true, decide_eq_true_eq, Char.le_def,
      UInt32.le_iff_toNat_le] at hdigit
    simp only [isWordStart, isLetter, Bool.or_eq_true, Bool.and_eq_true, decide_eq_true_eq,
      Char.le_def, UInt32.le_iff_toNat_le, Char.toNat] at h
    rcases h with (((⟨h, _⟩ | ⟨h, _⟩) | rfl) | rfl) | h
    · omega
    · omega
    · exact absurd hdigit.2 (by decide)
    · exact absurd hdigit.1 (by decide)
    · omega

/-- The text ends here or goes on with something that is no part of a word. -/
def EndsWord (rest : List Char) : Prop := ∀ c ∈ rest.head?, isWordPart c = false

theorem endsWord_nil : EndsWord [] := by simp [EndsWord]

theorem endsWord_of_head {c : Char} {cs : List Char} (hcs : cs.head? = some c)
    (h : isWordPart c = false) : EndsWord cs := by
  intro d hd
  rw [hcs] at hd
  cases hd
  exact h

theorem endsWord_cons {c : Char} (h : isWordPart c = false) (cs : List Char) :
    EndsWord (c :: cs) :=
  endsWord_of_head rfl h

theorem EndsWord.append {cs : List Char} (hcs : EndsWord cs) (hrest : EndsWord rest) :
    EndsWord (cs ++ rest) := by
  cases cs with
  | nil => exact hrest
  | cons c cs => exact hcs

/-- A word is one token in front of anything that does not go on with the word. -/
theorem Yields.word (h : Yields rest fs) {text : String} (hword : IsFullWord text)
    (hrest : EndsWord rest) :
    Yields (text.toList ++ rest) ((.ofWord text, text) :: fs) := by
  have hstart := hword.start
  have hchars := hword.chars
  cases htext : text.toList with
  | nil => exact absurd (String.toList_eq_nil_iff.mp htext) hword.nonempty
  | cons c cs =>
    rw [htext] at hstart hchars
    have hspan : span isWordPart (c :: (cs ++ rest)) = cs.length + 1 := by
      rw [← List.cons_append, span_append hrest, span, List.takeWhile_eq_self_iff.mpr hchars]
      rfl
    have hfront : String.ofList ((c :: (cs ++ rest)).take (cs.length + 1)) = text := by
      rw [List.take_succ_cons, List.take_left, ← htext, String.ofList_toList]
    have htoken := h.token cs (k := .ofWord text) (isSpace_of_isWordStart (hstart c rfl)) (by
      rw [lexeme_word (hstart c rfl), hspan, hfront])
    rwa [← htext, String.ofList_toList] at htoken

/-- A text that reads as tokens by itself does so in front of anything that stands apart. -/
theorem Yields.clean (h : Yields rest fs) {w : Word} (hw : w.Clean) (hrest : Apart rest) :
    Yields (w.text.toList ++ rest) ((lex w.text).tokens.map form ++ fs) := by
  intro s hs
  obtain ⟨c, cs, htext, hc, hfault, htrivia, hquotes, more⟩ := hw.begins
  obtain ⟨hmore, hfaces⟩ := more.relocate (s.begun c cs) rfl rfl
  have hplain : Plain s (c :: cs) := .token hs hc hfault htrivia hquotes hmore
  have hforms : (run s (c :: cs)).tokens.map form = (lex w.text).tokens.map form := by
    have hlex : (lex w.text).tokens = (run .start (c :: cs)).tokens := by
      rw [← htext]
      rfl
    have htail := congrArg (List.map fun face => (face.1, face.2.1)) hfaces
    rw [List.map_map, List.map_map] at htail
    rw [hlex, run_token hs hc hfault, run_token (s := .start) rfl hc hfault]
    exact congrArg (form (s.token c cs) :: ·) htail
  obtain ⟨herror, hbehind⟩ := h (passed s (c :: cs)) hplain.passed_pending
  rw [htext, hplain.run_append hrest]
  refine ⟨herror, ?_⟩
  rw [List.map_append, hforms, hbehind]

/-- A text that yields tokens is read as them. -/
theorem Yields.lex {text : String} (h : Yields text.toList fs) :
    (lex text).error = none ∧ (lex text).tokens.map form = fs :=
  h ⟨0, 0, ⟨0, 0⟩, []⟩ rfl

theorem map_fst_form (ts : List Token) : (ts.map form).map Prod.fst = ts.map Token.kind :=
  List.map_map

end Lexer

open Lexer

/-- A text that is one token of a name is a word, wherever it stands. -/
theorem IsToken.isFullWord {kind : TokenKind} {text : String} (h : IsToken kind text)
    (hkind : kind.isNaming) : IsFullWord text ∧ TokenKind.ofWord text = kind := by
  obtain ⟨t, htokens, ht, htext⟩ := h.eq_singleton
  have hmem : t ∈ (lex text).tokens := by simp [htokens]
  obtain ⟨hword, hof⟩ := word_of_run hmem (ht.symm ▸ hkind)
  rw [htext] at hword hof
  exact ⟨hword, by rw [← hof, ht]⟩

/-- A word is one token. -/
theorem Lexer.IsFullWord.isToken {text : String} (h : IsFullWord text) :
    IsToken (.ofWord text) text := by
  have hyields := yields_nil.word h endsWord_nil
  rw [List.append_nil] at hyields
  obtain ⟨herror, hforms⟩ := hyields.lex
  exact ⟨herror, hforms⟩

namespace Printing

/-! ### Rendered types -/

/-- The kinds of the tokens of words. -/
def kinds (ws : List Word) : List TokenKind := (spell ws).map Piece.kind

@[simp] theorem kinds_nil : kinds [] = [] := rfl

@[simp] theorem kinds_append (ws vs : List Word) : kinds (ws ++ vs) = kinds ws ++ kinds vs := by
  simp [kinds]

theorem kinds_token {kind : TokenKind} {text : String} (h : IsToken kind text) (ws : List Word) :
    kinds (.of text :: ws) = kind :: kinds ws := by
  simp [kinds, Word.of, h.pieces []]

theorem kinds_sign {kind : TokenKind} (h : kind.sign.isSome) (ws : List Word) :
    kinds (.sign kind :: ws) = kind :: kinds ws :=
  kinds_token (isToken_getD h) ws

/-- The kinds and the texts of the tokens of words. -/
def forms (ws : List Word) : List (TokenKind × String) := (spell ws).map fun p => (p.kind, p.text)

@[simp] theorem forms_nil : forms [] = [] := rfl

@[simp] theorem forms_append (ws vs : List Word) : forms (ws ++ vs) = forms ws ++ forms vs := by
  simp [forms]

@[simp] theorem map_fst_forms (ws : List Word) : (forms ws).map Prod.fst = kinds ws :=
  List.map_map

theorem forms_token {kind : TokenKind} {text : String} (h : IsToken kind text) (ws : List Word) :
    forms (.of text :: ws) = (kind, text) :: forms ws := by
  simp [forms, Word.of, h.pieces []]

theorem forms_sign {kind : TokenKind} {text : String} (h : kind.sign = some text)
    (ws : List Word) : forms (.sign kind :: ws) = (kind, text) :: forms ws := by
  rw [Word.sign, h]
  exact forms_token (isToken_sign h) ws

/-- Where no word goes on behind it, a text yields the tokens of certain words. -/
def Rendered (text : String) (ws : List Word) : Prop :=
  ∀ rest fs, EndsWord rest → Yields rest fs → Yields (text.toList ++ rest) (forms ws ++ fs)

theorem rendered_nil : Rendered "" [] := fun _ _ _ h => h

theorem Rendered.append {text text' : String} {ws vs : List Word} (h : Rendered text ws)
    (h' : Rendered text' vs) (hends : EndsWord text'.toList) :
    Rendered (text ++ text') (ws ++ vs) := by
  intro rest fs hrest hyields
  rw [String.toList_append, List.append_assoc, forms_append, List.append_assoc]
  exact h _ _ (hends.append hrest) (h' rest fs hrest hyields)

theorem rendered_word {kind : TokenKind} {text : String} (h : IsToken kind text)
    (hkind : kind.isNaming) : Rendered text [.of text] := by
  intro rest fs hrest hyields
  obtain ⟨hword, hof⟩ := h.isFullWord hkind
  rw [forms_token h, forms_nil, ← hof]
  exact hyields.word hword hrest

/-- A dot in front of a word is a token of its own. -/
theorem Yields.dot {text : String} {cs : List Char} {fs : List (TokenKind × String)}
    (hword : IsFullWord text) (h : Yields (text.toList ++ cs) fs) :
    Yields ('.' :: (text.toList ++ cs)) ((.dot, ".") :: fs) := by
  have hstart := hword.start
  refine h.token [] (by decide) ?_
  rw [List.nil_append, lexeme_dot]
  cases htext : text.toList with
  | nil => exact absurd (String.toList_eq_nil_iff.mp htext) hword.nonempty
  | cons c more =>
    rw [htext] at hstart
    have hc := hstart c rfl
    have hdot : c ≠ '.' := by
      rintro rfl
      revert hc
      decide
    simp [hdot, isDigit_of_isWordStart hc]

/-- Segments with a dot before each. -/
theorem rendered_segments {more : List String}
    (h : ∀ s ∈ more, ∃ k, TokenKind.isNaming k ∧ IsToken k s) :
    Rendered (String.join (more.map ("." ++ ·))) (more.flatMap fun s => [.sign .dot, .of s]) := by
  induction more with
  | nil => exact rendered_nil
  | cons s more ih =>
    obtain ⟨⟨k, hk, htoken⟩, hmore⟩ := List.forall_mem_cons.mp h
    obtain ⟨hword, hof⟩ := htoken.isFullWord hk
    intro rest fs hrest hyields
    have htail := ih hmore rest fs hrest hyields
    have hends : EndsWord ((String.join (more.map ("." ++ ·))).toList ++ rest) := by
      cases more with
      | nil => exact hrest
      | cons => exact endsWord_of_head (c := '.') (by simp) (by decide)
    have hdotted := Yields.dot hword (htail.word hword hends)
    rw [List.flatMap_cons, List.cons_append, forms_sign rfl, List.singleton_append,
      forms_token htoken, ← hof]
    simpa using hdotted

/-- A dotted name is rendered as it is. -/
theorem rendered_dotted {name : String}
    (h : ∀ s ∈ Name.segments name, ∃ k, TokenKind.isNaming k ∧ IsToken k s) :
    Rendered name (dotted name) := by
  cases hsplit : Text.splitAt '.' name.toList with
  | nil => exact absurd hsplit (Text.splitAt_ne_nil '.' name.toList)
  | cons first more =>
    have hsegments : Name.segments name = .ofList first :: more.map .ofList := by
      rw [Name.segments, hsplit, List.map_cons]
    have hname : name = .ofList first ++ String.join ((more.map .ofList).map ("." ++ ·)) := by
      apply String.toList_injective
      rw [← flatten_splitAt '.' _ _ _ hsplit]
      simp [List.flatMap_map]
    rw [hsegments] at h
    obtain ⟨⟨k, hk, htoken⟩, hmore⟩ := List.forall_mem_cons.mp h
    have hends : EndsWord (String.join ((more.map .ofList).map ("." ++ ·))).toList := by
      cases more with
      | nil => exact endsWord_nil
      | cons => exact endsWord_of_head (c := '.') (by simp) (by decide)
    have hall := (rendered_word htoken hk).append (rendered_segments hmore) hends
    rw [← hname] at hall
    rw [dotted, hsegments]
    exact hall

theorem isFullWord_extends : IsFullWord "extends" := isFullWord_of_all (by decide)

theorem isFullWord_super : IsFullWord "super" := isFullWord_of_all (by decide)

/-- A type argument is rendered if its type is. -/
theorem rendered_argument {a : Argument TypeExpr}
    (h : ∀ t ∈ a.type?, Rendered t.render (typeWords t)) :
    Rendered (TypeExpr.renderArg a) (argumentWords a) := by
  intro rest fs hrest hyields
  -- Behind a question mark and a blank stands the word of a bound, and a blank again.
  have hbound : ∀ {word : String} {kind : TokenKind} (t : TypeExpr), t ∈ a.type? →
      IsFullWord word → TokenKind.ofWord word = kind → kind.sign = some word →
      Yields ('?' :: ' ' :: (word.toList ++ ' ' :: (t.render.toList ++ rest)))
        (forms (.sign .question :: .sign kind :: typeWords t) ++ fs) := by
    intro word kind t ht hword hof hkind
    have htype := (h t ht rest fs hrest hyields).space (c := ' ') rfl
    have hall := ((htype.word hword (endsWord_cons (by decide) _)).space (c := ' ') rfl).sign
      (c := '?') (by decide) fun _ => rfl
    rw [forms_sign rfl, forms_sign hkind, ← hof]
    exact hall
  cases a with
  | exactly t => exact h t rfl rest fs hrest hyields
  | unbounded =>
    rw [argumentWords, forms_sign rfl, forms_nil]
    exact hyields.sign (by decide) fun _ => rfl
  | extending t =>
    simpa [TypeExpr.renderArg, argumentWords] using
      hbound t rfl isFullWord_extends (by decide +kernel) rfl
  | above t =>
    simpa [TypeExpr.renderArg, argumentWords] using
      hbound t rfl isFullWord_super (by decide +kernel) rfl

theorem renderArgs_eq (args : List (Argument TypeExpr)) :
    TypeExpr.renderArgs args = args.map TypeExpr.renderArg := by
  induction args with
  | nil => rfl
  | cons a as ih => rw [TypeExpr.renderArgs, ih, List.map_cons]

/-- Type arguments with a comma between each two. -/
theorem rendered_listed {args : List (Argument TypeExpr)}
    (h : ∀ a ∈ args, Rendered (TypeExpr.renderArg a) (argumentWords a)) :
    Rendered (", ".intercalate (args.map TypeExpr.renderArg))
      (listed .comma (args.map argumentWords)) := by
  induction args with
  | nil => exact rendered_nil
  | cons a as ih =>
    obtain ⟨ha, has⟩ := List.forall_mem_cons.mp h
    cases as with
    | nil => simpa [listed] using ha
    | cons b bs =>
      intro rest fs hrest hyields
      have hcomma := ((ih has rest fs hrest hyields).space (c := ' ') rfl).sign (c := ',')
        (by decide) fun _ => rfl
      have hall := ha _ _ (endsWord_cons (by decide) _) hcomma
      simp only [listed, List.map_cons, List.intercalate_cons_cons, forms_append] at hall ⊢
      rw [forms_sign rfl, forms_nil]
      simpa [List.intercalate_cons_cons] using hall

/-- Type arguments between angle brackets. -/
theorem rendered_angled {args : List (Argument TypeExpr)}
    (h : ∀ a ∈ args, Rendered (TypeExpr.renderArg a) (argumentWords a)) :
    Rendered (angleList (args.map TypeExpr.renderArg)) (angled (args.map argumentWords)) := by
  cases args with
  | nil => exact rendered_nil
  | cons a as =>
    intro rest fs hrest hyields
    have hclose := hyields.sign (c := '>') (by decide) fun _ => rfl
    have hlist := rendered_listed h _ _ (endsWord_cons (by decide) _) hclose
    have hall := hlist.sign (c := '<') (by decide) fun _ => rfl
    simp only [List.map_cons, angled] at hall ⊢
    rw [forms_sign rfl, forms_append, forms_sign rfl, forms_nil]
    simpa [angleList] using hall

theorem rendered_brackets (n : Nat) : Rendered (JavaModel.brackets n) (brackets n) := by
  induction n with
  | zero => exact rendered_nil
  | succ n ih =>
    intro rest fs hrest hyields
    have hsigns := ((ih rest fs hrest hyields).sign (c := ']') (by decide) fun _ => rfl).sign
      (c := '[') (by decide) fun _ => rfl
    rw [brackets, forms_sign rfl, forms_sign rfl]
    simpa [JavaModel.brackets, List.replicate_succ] using hsigns

/-- A type of identifiers, or a primitive type, whose type arguments have a property, with types of
the same sort in them. -/
inductive IsTypeOf (P : List (Argument TypeExpr) → Prop) : TypeExpr → Prop where
  | primitive {name : String} {dims : Nat} (h : name ∈ Name.primitives) :
      IsTypeOf P ⟨name, [], dims⟩
  | named {name : String} {args : List (Argument TypeExpr)} {dims : Nat}
      (hname : ∀ s ∈ Name.segments name, IsToken .identifier s) (hall : P args)
      (hargs : ∀ a ∈ args, ∀ t ∈ a.type?, IsTypeOf P t) : IsTypeOf P ⟨name, args, dims⟩

/-- A type as rendered reads as the words that print it. -/
theorem rendered_type {P : List (Argument TypeExpr) → Prop} {t : TypeExpr} (h : IsTypeOf P t) :
    Rendered t.render (typeWords t) := by
  have hparts : ∀ {name : String} {args : List (Argument TypeExpr)} {dims : Nat},
      (∀ s ∈ Name.segments name, ∃ k, TokenKind.isNaming k ∧ IsToken k s) →
      (∀ a ∈ args, ∀ t ∈ a.type?, Rendered t.render (typeWords t)) →
      Rendered (TypeExpr.render ⟨name, args, dims⟩) (typeWords ⟨name, args, dims⟩) := by
    intro name args dims hname hargs
    rw [TypeExpr.render, typeWords, renderArgs_eq, argumentsWords_eq, ← List.append_assoc]
    refine ((rendered_dotted hname).append
      (rendered_angled fun a ha => rendered_argument (hargs a ha)) ?_).append
        (rendered_brackets dims) ?_
    · cases args with
      | nil => exact endsWord_nil
      | cons => exact endsWord_of_head (c := '<') (by simp [angleList]) (by decide)
    · cases dims with
      | zero => exact endsWord_nil
      | succ =>
        exact endsWord_of_head (c := '[') (by simp [JavaModel.brackets, List.replicate_succ])
          (by decide)
  induction h with
  | @primitive name dims h =>
    refine hparts (fun s hs => ⟨.primitive, .inr rfl, ?_⟩) (by simp)
    obtain ⟨hsegments, htoken⟩ := segments_primitive h
    rw [hsegments, List.mem_singleton] at hs
    rwa [hs]
  | named hname _ _ ih => exact hparts (fun s hs => ⟨.identifier, .inl rfl, hname s hs⟩) ih

end Printing

end JavaModel
