import JavaModel.Proofs.Grammar.Reread
import JavaModel.Proofs.Grammar.Spelling
import JavaModel.Proofs.Grammar.TypeSyntax
import JavaModel.Proofs.Printing.TypeArguments

/-! The text of a type is its normal form. A type that is read off tokens, whatever annotations and
arguments of inner segments stood among them, is made of words, so that its text reads without an
error as just the tokens that write it, and these are read as the type again. -/

namespace JavaModel

/-- A lexeme is a token of some text. -/
def Lexeme.Lexed (l : Lexeme) : Prop := ∃ text, l ∈ lexemes text

open Lexer

theorem Lexeme.Lexed.isToken {l : Lexeme} (h : l.Lexed) (hkind : l.kind.isNaming) :
    IsToken l.kind l.text := by
  obtain ⟨text, hmem⟩ := h
  obtain ⟨hword, hof⟩ := word_of_lex hmem hkind
  rw [hof]
  exact hword.isToken

/-- An identifier is a name of one segment. -/
theorem Lexeme.Lexed.dotted {l : Lexeme} (h : l.Lexed) (hkind : l.kind = .identifier) :
    Name.Dotted (IsToken .identifier) l.text := by
  have htoken := h.isToken (.inl hkind)
  rw [hkind] at htoken
  exact ((htoken.isFullWord (.inl rfl)).1.single htoken).dotted

namespace Printing

open Grammar Reader

/-! ### Types that are read -/

/-- The types in arguments are types of identifiers. -/
def AllTyped (args : List (Argument TypeExpr)) : Prop :=
  ∀ a ∈ args, ∀ t ∈ a.type?, IsTypeOf (fun _ => True) t

/-- A part of a type has names of identifiers, as far as the name that it goes on with has. -/
def TypePart.Typed : TypePart → Prop
  | .type t => IsTypeOf (fun _ => True) t
  | .behind name full args => Name.Dotted (IsToken .identifier) name →
      Name.Dotted (IsToken .identifier) full ∧ AllTyped args
  | .arguments args | .listed args => AllTyped args
  | .argument a => ∀ t ∈ a.type?, IsTypeOf (fun _ => True) t

/-- What tokens write is made of identifiers. -/
theorem typed_of_derives {part : TypePart} {ls : List Lexeme} (h : Derives part ls)
    (hls : ∀ l ∈ ls, l.Lexed) : TypePart.Typed part := by
  induction h with
  | @primitive notes pairs p n hnotes hp hpairs =>
    obtain ⟨text, hmem⟩ := hls p (by simp)
    have hof := (Lexeme.word_of_lex hmem (.inr hp)).2
    exact .primitive (TokenKind.mem_primitives (hof.symm.trans hp))
  | @named notes more pairs first name args n hnotes hfirst hmore hpairs ih =>
    obtain ⟨hname, hargs⟩ := ih (fun l hl => hls l (by simp [hl]))
      ((hls first (by simp)).dotted hfirst)
    exact .named hname trivial hargs
  | last h ih => exact fun hname => ⟨hname, ih hls⟩
  | @segment name full inner args ls notes more d l h hd hnotes hl hmore ih ih' =>
    exact fun hname => ih' (fun x hx => hls x (by simp [hx]))
      (hname.append ((hls l (by simp)).dotted hl))
  | absent => exact List.forall_mem_nil _
  | diamond ho hc => exact List.forall_mem_nil _
  | angled ho h hc ih => exact ih fun l hl => hls l (by simp [hl])
  | one h ih => exact List.forall_mem_singleton.mpr (ih hls)
  | next h hcomma hmore ih ih' =>
    exact List.forall_mem_cons.mpr ⟨ih fun l hl => hls l (by simp [hl]),
      ih' fun l hl => hls l (by simp [hl])⟩
  | exactly h ih =>
    rintro t ⟨⟩
    exact ih hls
  | unbounded hnotes hq => exact fun t ht => nomatch ht
  | extending hnotes hq hw h ih =>
    rintro t ⟨⟩
    exact ih fun l hl => hls l (by simp [hl])
  | above hnotes hq hw h ih =>
    rintro t ⟨⟩
    exact ih fun l hl => hls l (by simp [hl])

/-! ### Lexemes of the words of a type -/

/-- Lexemes read as certain words. -/
def Writes (ws : List Word) (ls : List Lexeme) : Prop := ls.map Lexeme.form = forms ws

variable {ls : List Lexeme} {ws vs : List Word}

theorem Writes.nil (h : Writes [] ls) : ls = [] := List.map_eq_nil_iff.mp h

theorem Writes.append (h : Writes (ws ++ vs) ls) :
    ∃ front rest, ls = front ++ rest ∧ Writes ws front ∧ Writes vs rest := by
  rw [Writes, forms_append] at h
  exact List.map_eq_append_iff.mp h

theorem Writes.token {kind : TokenKind} {text : String} (htoken : IsToken kind text)
    (h : Writes (.of text :: ws) ls) :
    ∃ l rest, ls = l :: rest ∧ l.kind = kind ∧ l.text = text ∧ Writes ws rest := by
  rw [Writes, forms_token htoken] at h
  obtain ⟨l, rest, rfl, hform, hrest⟩ := List.map_eq_cons_iff.mp h
  obtain ⟨hkind, htext⟩ := Prod.mk.inj hform
  exact ⟨l, rest, rfl, hkind, htext, hrest⟩

theorem Writes.sign {kind : TokenKind} (hsign : kind.sign.isSome)
    (h : Writes (.sign kind :: ws) ls) : ∃ l rest, ls = l :: rest ∧ l.kind = kind ∧
      Writes ws rest := by
  obtain ⟨l, rest, hls, hkind, -, hrest⟩ := Writes.token (isToken_getD hsign) h
  exact ⟨l, rest, hls, hkind, hrest⟩

theorem pairs_of_writes {n : Nat} (h : Writes (brackets n) ls) : Pairs n ls := by
  induction n generalizing ls with
  | zero =>
    rw [h.nil]
    exact .nil
  | succ n ih =>
    obtain ⟨l, rest, rfl, hl, hrest⟩ := Writes.sign (by decide) h
    obtain ⟨r, more, rfl, hr, hmore⟩ := Writes.sign (by decide) hrest
    exact .cons hl hr (ih hmore)

/-- Segments behind a name, and arguments behind the last. -/
theorem derives_of_segments {args : List (Argument TypeExpr)} {behind : List Lexeme}
    (hargs : Derives (.arguments args) behind) (name : String) {more : List String}
    (hmore : ∀ s ∈ more, IsToken .identifier s)
    (h : Writes (more.flatMap fun s => [.sign .dot, .of s]) ls) :
    Derives (.behind name (more.foldl (fun name s => name ++ "." ++ s) name) args)
      (ls ++ behind) := by
  induction more generalizing name ls with
  | nil =>
    rw [h.nil]
    exact .last hargs
  | cons s more ih =>
    obtain ⟨hs, hsegments⟩ := List.forall_mem_cons.mp hmore
    obtain ⟨d, rest, rfl, hd, hrest⟩ := Writes.sign (by decide) h
    obtain ⟨l, tail, rfl, hl, rfl, htail⟩ := Writes.token hs hrest
    exact .segment .absent hd .nil hl (ih (name ++ "." ++ l.text) hsegments htail)

section Arguments

variable {args : List (Argument TypeExpr)}
  (hargs : ∀ a ∈ args, ∀ ls, Writes (argumentWords a) ls → Derives (.argument a) ls)

include hargs

theorem derives_of_listed (hne : args ≠ [])
    (h : Writes (listed .comma (args.map argumentWords)) ls) : Derives (.listed args) ls := by
  induction args generalizing ls with
  | nil => exact absurd rfl hne
  | cons a as ih =>
    obtain ⟨ha, has⟩ := List.forall_mem_cons.mp hargs
    cases as with
    | nil =>
      have hone : Writes (argumentWords a) ls := by simpa [listed] using h
      exact .one (ha ls hone)
    | cons b bs =>
      have hall : Writes (argumentWords a ++
          .sign .comma :: listed .comma ((b :: bs).map argumentWords)) ls := by
        simpa [listed, List.intercalate_cons_cons] using h
      obtain ⟨front, rest, rfl, hfront, hrest⟩ := hall.append
      obtain ⟨comma, more, rfl, hcomma, hmore⟩ := Writes.sign (by decide) hrest
      exact .next (ha front hfront) hcomma (ih has (List.cons_ne_nil b bs) hmore)

theorem derives_of_angled (h : Writes (angled (args.map argumentWords)) ls) :
    Derives (.arguments args) ls := by
  cases args with
  | nil =>
    rw [Writes.nil h]
    exact .absent
  | cons a as =>
    obtain ⟨o, rest, rfl, ho, hrest⟩ := Writes.sign (by decide) h
    obtain ⟨inner, tail, rfl, hinner, htail⟩ := hrest.append
    obtain ⟨c, more, rfl, hc, hmore⟩ := Writes.sign (by decide) htail
    rw [hmore.nil]
    exact .angled ho (derives_of_listed hargs (List.cons_ne_nil a as) hinner) hc

end Arguments

/-- Lexemes of the words of a type write it. -/
theorem derives_of_words {P : List (Argument TypeExpr) → Prop} {t : TypeExpr} (ht : IsTypeOf P t)
    (h : Writes (typeWords t) ls) : Derives (.type t) ls := by
  induction ht generalizing ls with
  | @primitive name dims hname =>
    obtain ⟨hdotted, htoken⟩ := dotted_primitive hname
    rw [typeWords, hdotted, argumentsWords, angled, List.nil_append, List.singleton_append] at h
    obtain ⟨p, pairs, rfl, hp, rfl, hpairs⟩ := Writes.token htoken h
    exact .primitive .nil hp (pairs_of_writes hpairs)
  | @named name args dims hname _ _ ih =>
    rw [typeWords, argumentsWords_eq] at h
    obtain ⟨front, rest, rfl, hfront, hrest⟩ := h.append
    obtain ⟨behind, pairs, rfl, hbehind, hpairs⟩ := hrest.append
    have hargument : ∀ a ∈ args, ∀ ls, Writes (argumentWords a) ls → Derives (.argument a) ls := by
      intro a ha ls hls
      cases a with
      | exactly t => exact .exactly (ih _ ha t rfl hls)
      | unbounded =>
        obtain ⟨q, rest, rfl, hq, hrest⟩ := Writes.sign (by decide) hls
        rw [hrest.nil]
        exact .unbounded .nil hq
      | extending t =>
        obtain ⟨q, rest, rfl, hq, hrest⟩ := Writes.sign (by decide) hls
        obtain ⟨w, more, rfl, hw, hmore⟩ := Writes.sign (by decide) hrest
        exact .extending .nil hq hw (ih _ ha t rfl hmore)
      | above t =>
        obtain ⟨q, rest, rfl, hq, hrest⟩ := Writes.sign (by decide) hls
        obtain ⟨w, more, rfl, hw, hmore⟩ := Writes.sign (by decide) hrest
        exact .above .nil hq hw (ih _ ha t rfl hmore)
    have hbehind := derives_of_angled hargument hbehind
    cases hsegments : Name.segments name with
    | nil => exact absurd hsegments (Name.segments_ne_nil name)
    | cons s more =>
      rw [dotted, hsegments] at hfront
      rw [hsegments] at hname
      obtain ⟨hs, hmore⟩ := List.forall_mem_cons.mp hname
      obtain ⟨first, tail, rfl, hfirst, rfl, htail⟩ := Writes.token hs hfront
      have hall := derives_of_segments hbehind first.text hmore htail
      rw [foldl_of_segments hsegments] at hall
      simpa using Derives.named .nil hfirst hall (pairs_of_writes hpairs)

/-! ### Their text -/

/-- The text of a type reads as the words that print it. -/
theorem lexemes_render {P : List (Argument TypeExpr) → Prop} {t : TypeExpr} (ht : IsTypeOf P t) :
    (lex t.render).error = none ∧ Writes (typeWords t) (lexemes t.render) := by
  have hyields := rendered_type ht [] [] endsWord_nil yields_nil
  rw [List.append_nil, List.append_nil] at hyields
  obtain ⟨herror, hforms⟩ := hyields.lex
  refine ⟨herror, ?_⟩
  have hplain : (lex t.render).tokens.filter (fun tok => !tok.kind.isTrivia) =
      (lex t.render).tokens := by
    refine List.filter_eq_self.mpr fun tok htok => ?_
    have hmem := List.mem_map_of_mem (f := form) htok
    rw [hforms] at hmem
    have hkind : tok.kind ∈ kinds (typeWords t) := by
      rw [← map_fst_forms]
      exact List.mem_map_of_mem (f := Prod.fst) hmem
    rw [angled_not_trivia (angled_type ht) _ hkind]
    rfl
  rw [Writes, lexemes, Lexeme.ofTokens, Lexeme.map_form_attach, significant, hplain, hforms]

/-- The text of a type that is read off tokens reads without an error, and as that type again. -/
theorem type_render {told : List Event} {t : TypeExpr} {rest : List Lexeme}
    (h : type ls = (told, .ok (t, rest))) (hls : ∀ l ∈ ls, l.Lexed) :
    (lex t.render).error = none ∧ type (lexemes t.render) = ([], .ok (t, [])) := by
  obtain ⟨-, front, rfl, hfront, -⟩ := type_iff.mp h
  have ht := typed_of_derives hfront fun l hl => hls l (List.mem_append_left rest hl)
  obtain ⟨herror, hwords⟩ := lexemes_render ht
  refine ⟨herror, type_iff.mpr ⟨rfl, _, (List.append_nil _).symm, derives_of_words ht hwords, ?_⟩⟩
  exact ⟨fun _ => by simp [Lexeme.kindAt], fun _ => rfl, by simp [EndsPairs, Lexeme.kindAt]⟩

/-- The tokens of `@N a.B<?>.C<K<>[], ? super L>`. Of the annotation, the first arguments and the
empty brackets nothing is left in the text of the type. -/
theorem type_render_inner :
    let ls := [loose .atSign "@", loose .identifier "N", loose .identifier "a", loose .dot ".",
      loose .identifier "B", loose .less "<", loose .question "?", loose .greater ">",
      loose .dot ".", loose .identifier "C", loose .less "<", loose .identifier "K",
      loose .less "<", loose .greater ">", loose .leftBracket "[", loose .rightBracket "]",
      loose .comma ",", loose .question "?", loose .superWord "super", loose .identifier "L",
      loose .greater ">"]
    let t : TypeExpr := ⟨"a.B.C", [.exactly ⟨"K", [], 1⟩, .above ⟨"L", [], 0⟩], 0⟩
    (type ls = ([], .ok (t, [])) ∧ ∀ l ∈ ls, l.Lexed) ∧ t.render = "a.B.C<K[], ? super L>" ∧
      (lex t.render).error = none ∧ type (lexemes t.render) = ([], .ok (t, [])) := by
  intro ls t
  have hread : type ls = ([], .ok (t, [])) := rfl
  have hown : ∀ l ∈ ls, l ∈ lexemes l.text := by decide +kernel
  have hlexed : ∀ l ∈ ls, l.Lexed := fun l hl => ⟨l.text, hown l hl⟩
  exact ⟨⟨hread, hlexed⟩, by decide +kernel, type_render hread hlexed⟩

end Printing

end JavaModel
