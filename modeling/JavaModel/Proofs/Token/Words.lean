import JavaModel.Grammar.Lexeme
import JavaModel.Proofs.Token.Run
import Mathlib.Data.List.Forall2

/-! Words set in a text. A word is a text that reads as tokens by itself, without comments and from
its first character on. Where white space stands between the words of a text, the text reads as the
tokens of its words, one word after the other. -/

namespace JavaModel

/-- What is written of a lexeme: its kind and text, what stands before it inside a word, and the
lines asked of it, of which it can begin on one only. -/
structure Piece where
  kind : TokenKind
  text : String
  leading? : Option String
  lines : List Nat
deriving DecidableEq

/-- A lexeme is as it is written. At the front of a word any white space may stand before it. -/
structure Piece.Fits (p : Piece) (l : Lexeme) : Prop where
  kind : l.kind = p.kind
  text : l.text = p.text
  doc : l.doc = none
  leading : ∀ s ∈ p.leading?, l.leading = s
  blank : p.leading? = none → ∀ c ∈ l.leading.toList, Lexer.isSpace c
  line : ∀ n ∈ p.lines, l.line = n

/-- Lexemes are as they are written. -/
def Spelled (ps : List Piece) (ls : List Lexeme) : Prop := List.Forall₂ Piece.Fits ps ls

/-- A text to be set apart from others by white space, and the lines asked of its first token. -/
structure Word where
  text : String
  lines : List Nat

namespace Word

/-- A word that may begin on any line. -/
def of (text : String) : Word := ⟨text, []⟩

/-- What is written of the lexemes of a word. -/
def pieces (w : Word) : List Piece :=
  match (lex w.text).tokens with
  | [] => []
  | t :: ts => ⟨t.kind, t.text, none, w.lines⟩ :: ts.map fun t => ⟨t.kind, t.text, some t.gap, []⟩

/-- Words read as tokens by themselves, without comments, and begin with the first of them. -/
structure Clean (w : Word) : Prop where
  error : (lex w.text).error = none
  plain : ∀ t ∈ (lex w.text).tokens, t.kind.isTrivia = false
  nonempty : w.text.toList ≠ []
  first : ∀ c ∈ w.text.toList.head?, Lexer.isSpace c = false

/-- The first character is asked directly: there are instances that go through all characters. -/
instance (w : Word) : Decidable w.Clean :=
  decidable_of_iff ((lex w.text).error = none ∧
      (∀ t ∈ (lex w.text).tokens, t.kind.isTrivia = false) ∧ w.text.toList ≠ [] ∧
      w.text.toList.head?.all fun c => !Lexer.isSpace c)
    ⟨fun h => ⟨h.1, h.2.1, h.2.2.1, by simpa [Option.all_eq_true] using h.2.2.2⟩,
      fun h => ⟨h.error, h.plain, h.nonempty, by simpa [Option.all_eq_true] using h.first⟩⟩

/-- A word that may begin on any line. -/
structure Free (w : Word) : Prop extends w.Clean where
  lines : w.lines = []

end Word

theorem clean_of_free {ws : List Word} (h : ∀ w ∈ ws, w.Free) : ∀ w ∈ ws, w.Clean :=
  fun w hw => (h w hw).toClean

open Lexer

/-- The state in which a text is read from its beginning. -/
def Lexer.State.start : State := ⟨0, 0, ⟨0, 0⟩, []⟩

theorem Word.Clean.reading {w : Word} (h : w.Clean) : Plain .start w.text.toList :=
  plain_of_run (Nat.zero_le _) h.error h.plain

/-- A word begins with a token. -/
theorem Word.Clean.begins {w : Word} (h : w.Clean) :
    ∃ c cs, w.text.toList = c :: cs ∧ isSpace c = false ∧ (lexeme c cs).2.fault = none ∧
      (lexeme c cs).1.isTrivia = false ∧ ¬ QuotesAtEnd c cs ∧
        Plain (State.start.begun c cs) cs := by
  have hreading := h.reading
  have hfirst := h.first
  have hnonempty := h.nonempty
  generalize w.text.toList = cs at hreading hfirst hnonempty ⊢
  match cs, hreading with
  | [], _ => exact absurd rfl hnonempty
  | c :: cs, .pending hpending _ => cases hpending
  | c :: cs, .space _ hc _ =>
    have := hfirst c rfl
    rw [hc] at this
    cases this
  | c :: cs, .token _ hc hfault htrivia hquotes more =>
    exact ⟨c, cs, rfl, hc, hfault, htrivia, hquotes, more⟩

theorem Word.pieces_eq {w : Word} {c : Char} {cs : List Char} (htext : w.text.toList = c :: cs)
    (hc : isSpace c = false) (hfault : (lexeme c cs).2.fault = none) :
    w.pieces = ⟨(State.start.token c cs).kind, (State.start.token c cs).text, none, w.lines⟩ ::
      (run (State.start.begun c cs) cs).tokens.map fun t => ⟨t.kind, t.text, some t.gap, []⟩ := by
  have hlex : (lex w.text).tokens = (run .start (c :: cs)).tokens := by
    rw [← htext]
    rfl
  simp only [Word.pieces, hlex, run_token (s := .start) rfl hc hfault]

/-- A word has a piece at least. -/
theorem Word.Clean.pieces_ne_nil {w : Word} (h : w.Clean) : w.pieces ≠ [] := by
  obtain ⟨c, cs, htext, hc, hfault, _, _, _⟩ := h.begins
  rw [Word.pieces_eq htext hc hfault]
  exact List.cons_ne_nil _ _

/-- The lexemes of tokens of which none is a comment. -/
theorem Lexeme.ofTokens_eq {ts : List Token} (h : ∀ t ∈ ts, t.kind.isTrivia = false) :
    Lexeme.ofTokens ts = ts.map fun t => ⟨t.kind, t.text, t.gap, none, t.start, t.position⟩ := by
  unfold Lexeme.ofTokens
  induction ts with
  | nil => rfl
  | cons t ts ih =>
    have ht := h t List.mem_cons_self
    simp only [Lexeme.attach, ht, List.map_cons, Bool.false_eq_true, if_false]
    rw [ih fun t ht => h t (List.mem_cons_of_mem _ ht)]
    simp

theorem forall₂_of_faces {ts ts' : List Token} (h : ts'.map face = ts.map face) :
    List.Forall₂ Piece.Fits (ts.map fun t => ⟨t.kind, t.text, some t.gap, []⟩)
      (ts'.map fun t => ⟨t.kind, t.text, t.gap, none, t.start, t.position⟩) := by
  induction ts generalizing ts' with
  | nil =>
    obtain rfl : ts' = [] := by simpa using h
    exact .nil
  | cons t ts ih =>
    match ts' with
    | [] => cases h
    | t' :: ts' =>
      simp only [List.map_cons, List.cons.injEq, face, Prod.mk.injEq] at h
      obtain ⟨⟨hkind, htext, hgap⟩, hmore⟩ := h
      refine .cons ⟨hkind, htext, rfl, ?_, by simp, by simp⟩ (ih hmore)
      simp [hgap]

/-- A word reads as its pieces wherever a token may begin. -/
theorem Word.Clean.spelled {w : Word} (h : w.Clean) {s : State} (hpending : s.pending = 0)
    (hgap : ∀ c ∈ s.gap, isSpace c) (hline : ∀ n ∈ w.lines, s.position.line + 1 = n) :
    Plain s w.text.toList ∧ Spelled w.pieces (Lexeme.ofTokens (run s w.text.toList).tokens) := by
  obtain ⟨c, cs, htext, hc, hfault, htrivia, hquotes, more⟩ := h.begins
  obtain ⟨hmore, hfaces⟩ := more.relocate (s.begun c cs) rfl rfl
  have hplain : Plain s (c :: cs) := .token hpending hc hfault htrivia hquotes hmore
  rw [htext]
  refine ⟨hplain, ?_⟩
  rw [Lexeme.ofTokens_eq hplain.not_trivia, Word.pieces_eq htext hc hfault,
    run_token hpending hc hfault]
  refine .cons ⟨rfl, rfl, rfl, by simp, fun _ => ?_, hline⟩ (forall₂_of_faces hfaces)
  simpa [State.token] using hgap

/-! ### Texts of words -/

/-- A text made of words from a line on: white space may stand before each and behind the last, and
has to stand between each two. -/
inductive Laid : Nat → List Word → List Char → Prop where
  | done {line : Nat} {trail : List Char} (htrail : ∀ c ∈ trail, isSpace c) : Laid line [] trail
  | word {line : Nat} {w : Word} {ws : List Word} {gap rest : List Char}
      (hgap : ∀ c ∈ gap, isSpace c) (hline : ∀ n ∈ w.lines, n = line + gap.count '\n')
      (hrest : Breaks rest)
      (more : Laid (line + gap.count '\n' + w.text.toList.count '\n') ws rest) :
      Laid line (w :: ws) (gap ++ w.text.toList ++ rest)

/-- A word behind a blank. -/
theorem Laid.spaced {line : Nat} {w : Word} {ws : List Word} {rest : List Char}
    (hline : ∀ n ∈ w.lines, n = line) (hrest : Breaks rest)
    (more : Laid (line + w.text.toList.count '\n') ws rest) :
    Laid line (w :: ws) (' ' :: (w.text.toList ++ rest)) :=
  show Laid line _ ([' '] ++ w.text.toList ++ rest) from
    .word (by simp [isSpace]) (by simpa using hline) hrest (by simpa using more)

theorem run_spaces {s : State} (h : s.pending = 0) {gap : List Char} (hgap : ∀ c ∈ gap, isSpace c)
    (rest : List Char) :
    run s (gap ++ rest) = run (passed s gap) rest ∧ (passed s gap).pending = 0 := by
  induction gap generalizing s with
  | nil => exact ⟨rfl, h⟩
  | cons c gap ih =>
    have hc := hgap c List.mem_cons_self
    rw [List.cons_append, run_space h hc, passed_space h hc]
    exact ih h fun d hd => hgap d (List.mem_cons_of_mem _ hd)

theorem Laid.reads {line : Nat} {ws : List Word} {text : List Char} (h : Laid line ws text)
    (hclean : ∀ w ∈ ws, w.Clean) {s : State} (hpending : s.pending = 0)
    (hgap : ∀ c ∈ s.gap, isSpace c) (hline : s.position.line + 1 = line) :
    (run s text).error = none ∧ (∀ t ∈ (run s text).tokens, t.kind.isTrivia = false) ∧
      Spelled (ws.flatMap Word.pieces) (Lexeme.ofTokens (run s text).tokens) := by
  induction h generalizing s with
  | @done line trail htrail =>
    have hrun := (run_spaces hpending htrail []).1
    rw [List.append_nil] at hrun
    rw [hrun]
    exact ⟨rfl, by simp [run], .nil⟩
  | @word line w ws gap rest hspace hmark hrest more ih =>
    obtain ⟨hrun, hpassed⟩ := run_spaces hpending hspace (w.text.toList ++ rest)
    have hgap' := passed_gap hgap gap
    have hline' := passed_line s gap
    obtain ⟨hplain, hword⟩ := (hclean w List.mem_cons_self).spelled hpassed hgap' (by
      intro n hn
      rw [hmark n hn, hline']
      omega)
    rw [List.append_assoc, hrun, hplain.run_append hrest.apart]
    obtain ⟨herror, htrivia, hspelled⟩ := ih (fun w hw => hclean w (List.mem_cons_of_mem _ hw))
      hplain.passed_pending (passed_gap hgap' _) (by
        rw [passed_line, hline']
        omega)
    have hall : ∀ t ∈ (run (passed s gap) w.text.toList).tokens ++
        (run (passed (passed s gap) w.text.toList) rest).tokens, t.kind.isTrivia = false := by
      intro t ht
      rcases List.mem_append.mp ht with ht | ht
      · exact hplain.not_trivia t ht
      · exact htrivia t ht
    refine ⟨herror, hall, ?_⟩
    rw [Lexeme.ofTokens_eq hall, List.map_append, ← Lexeme.ofTokens_eq hplain.not_trivia,
      ← Lexeme.ofTokens_eq htrivia, List.flatMap_cons]
    exact List.rel_append hword hspelled

/-- A text made of words reads as the tokens of its words. -/
theorem Laid.spelled {ws : List Word} {text : String} (h : Laid 1 ws text.toList)
    (hclean : ∀ w ∈ ws, w.Clean) :
    (lex text).error = none ∧
      Spelled (ws.flatMap Word.pieces) (Lexeme.ofTokens (lex text).tokens) := by
  obtain ⟨herror, _, hspelled⟩ := h.reads hclean (s := .start) rfl (by simp [State.start]) rfl
  exact ⟨herror, hspelled⟩

/-! ### Words of one token -/

/-- A text that is one token. -/
structure IsToken (kind : TokenKind) (text : String) : Prop where
  error : (lex text).error = none
  tokens : (lex text).tokens.map (fun t => (t.kind, t.text)) = [(kind, text)]

instance (kind : TokenKind) (text : String) : Decidable (IsToken kind text) :=
  decidable_of_iff ((lex text).error = none ∧
      (lex text).tokens.map (fun t => (t.kind, t.text)) = [(kind, text)])
    ⟨fun h => ⟨h.1, h.2⟩, fun h => ⟨h.1, h.2⟩⟩

theorem IsToken.eq_singleton {kind : TokenKind} {text : String} (h : IsToken kind text) :
    ∃ t, (lex text).tokens = [t] ∧ t.kind = kind ∧ t.text = text := by
  have htokens := h.tokens
  match hlex : (lex text).tokens with
  | [] => simp [hlex] at htokens
  | [t] => exact ⟨t, rfl, by simpa [hlex] using htokens⟩
  | t :: u :: ts => simp [hlex] at htokens

theorem IsToken.pieces {kind : TokenKind} {text : String} (h : IsToken kind text)
    (lines : List Nat) : (Word.mk text lines).pieces = [⟨kind, text, none, lines⟩] := by
  obtain ⟨t, htokens, hkind, htext⟩ := h.eq_singleton
  simp [Word.pieces, htokens, hkind, htext]

theorem IsToken.clean {kind : TokenKind} {text : String} (h : IsToken kind text)
    (hkind : kind.isTrivia = false) (lines : List Nat) : (Word.mk text lines).Clean := by
  obtain ⟨t, htokens, ht, htext⟩ := h.eq_singleton
  have htrivia : ∀ t ∈ (lex text).tokens, t.kind.isTrivia = false := by
    simp [htokens, ht, hkind]
  have hplain : Plain .start text.toList := plain_of_run (Nat.zero_le _) h.error htrivia
  obtain ⟨c, more, hcs, hc⟩ := hplain.text_head t (by
    show t ∈ (lex text).tokens
    simp [htokens])
  rw [htext] at hcs
  exact ⟨h.error, htrivia, by simp [hcs], by simp [hcs, hc]⟩

theorem IsToken.free {kind : TokenKind} {text : String} (h : IsToken kind text)
    (hkind : kind.isTrivia = false) : (Word.of text).Free :=
  ⟨h.clean hkind [], rfl⟩

/-- How the kinds are written that declarations use and that are always written alike. -/
def TokenKind.sign : TokenKind → Option String
  | packageWord => some "package"
  | importWord => some "import"
  | classWord => some "class"
  | interfaceWord => some "interface"
  | enumWord => some "enum"
  | extendsWord => some "extends"
  | implementsWord => some "implements"
  | throwsWord => some "throws"
  | superWord => some "super"
  | leftBrace => some "\x7b"
  | rightBrace => some "\x7d"
  | leftParen => some "("
  | rightParen => some ")"
  | leftBracket => some "["
  | rightBracket => some "]"
  | semicolon => some ";"
  | comma => some ","
  | dot => some "."
  | ellipsis => some "..."
  | atSign => some "@"
  | less => some "<"
  | greater => some ">"
  | question => some "?"
  | ampersand => some "&"
  | equals => some "="
  | _ => none

theorem isToken_sign {kind : TokenKind} {text : String} (h : kind.sign = some text) :
    IsToken kind text := by
  cases kind <;> cases h <;> decide +kernel

/-- The word that writes a kind. -/
def Word.sign (kind : TokenKind) : Word := .of (kind.sign.getD "")

theorem isToken_getD {kind : TokenKind} (h : kind.sign.isSome) :
    IsToken kind (kind.sign.getD "") := by
  obtain ⟨text, htext⟩ := Option.isSome_iff_exists.mp h
  rw [htext]
  exact isToken_sign htext

theorem Word.free_sign {kind : TokenKind} (h : kind.sign.isSome) : (Word.sign kind).Free := by
  refine (isToken_getD h).free ?_
  cases kind <;> first | rfl | cases h

/-! ### Spelling -/

/-- What is written of the lexemes of words. -/
def spell (ws : List Word) : List Piece := ws.flatMap Word.pieces

@[simp] theorem spell_nil : spell [] = [] := rfl

@[simp] theorem spell_cons (w : Word) (ws : List Word) :
    spell (w :: ws) = w.pieces ++ spell ws := rfl

@[simp] theorem spell_append (ws vs : List Word) : spell (ws ++ vs) = spell ws ++ spell vs :=
  List.flatMap_append

@[simp] theorem pieces_sign {kind : TokenKind} (h : kind.sign.isSome) :
    (Word.sign kind).pieces = [⟨kind, kind.sign.getD "", none, []⟩] :=
  (isToken_getD h).pieces []

/-- A word that is asked to begin on a line as well. -/
def Word.onLine (n : Nat) (w : Word) : Word := { w with lines := n :: w.lines }

/-- Words of which the first is asked to begin on a line. -/
def onLine (n : Nat) : List Word → List Word
  | [] => []
  | w :: ws => w.onLine n :: ws

theorem Word.Clean.onLine {w : Word} (h : w.Clean) (n : Nat) : (w.onLine n).Clean :=
  ⟨h.error, h.plain, h.nonempty, h.first⟩

theorem Clean.onLine {ws : List Word} (h : ∀ w ∈ ws, w.Clean) (n : Nat) :
    ∀ w ∈ onLine n ws, w.Clean := by
  cases ws with
  | nil => exact h
  | cons w ws =>
    intro v hv
    rcases List.mem_cons.mp hv with rfl | hv
    · exact (h w List.mem_cons_self).onLine n
    · exact h v (List.mem_cons_of_mem _ hv)

end JavaModel
