import JavaModel.Proofs.Grammar.Reading
import JavaModel.Proofs.Text.Trimming

/-! Raw text as a single word, and read back between brackets or as an expression. -/

namespace JavaModel.Printing

open Grammar Reader

/-! ### Balanced brackets -/

/-- The kind that closes a bracket. -/
def closing? : TokenKind → Option TokenKind
  | .leftBrace => some .rightBrace
  | .leftParen => some .rightParen
  | .leftBracket => some .rightBracket
  | _ => none

def isClosing : TokenKind → Bool
  | .rightBrace | .rightParen | .rightBracket => true
  | _ => false

/-- Whether brackets close in the order in which they were opened, `awaited` being the closings of
those open, and only certain kinds stand outside all of them. -/
def balanced (outside : TokenKind → Bool) (awaited : List TokenKind) : List TokenKind → Bool
  | [] => awaited.isEmpty
  | k :: ks =>
    match closing? k with
    | some c => balanced outside (c :: awaited) ks
    | none =>
      if isClosing k then
        match awaited with
        | c :: more => c = k && balanced outside more ks
        | [] => false
      else (!awaited.isEmpty || outside k) && balanced outside awaited ks

theorem balanced_open {outside : TokenKind → Bool} {awaited ks : List TokenKind} {k c : TokenKind}
    (h : closing? k = some c) :
    balanced outside awaited (k :: ks) = balanced outside (c :: awaited) ks := by
  cases awaited <;> simp [balanced, h]

theorem closing?_of_isClosing {k : TokenKind} (h : isClosing k) : closing? k = none := by
  cases k <;> first | rfl | cases h

/-- A closing bracket is the one awaited. -/
theorem balanced_close {outside : TokenKind → Bool} {awaited ks : List TokenKind} {k : TokenKind}
    (h : isClosing k) (hbalanced : balanced outside awaited (k :: ks)) :
    ∃ more, awaited = k :: more ∧ balanced outside more ks := by
  have hnone := closing?_of_isClosing h
  cases awaited with
  | nil => simp [balanced, hnone, h] at hbalanced
  | cons c more =>
    simp only [balanced, hnone, h, if_true, Bool.and_eq_true, decide_eq_true_eq] at hbalanced
    exact ⟨more, by rw [hbalanced.1], hbalanced.2⟩

theorem balanced_other {outside : TokenKind → Bool} {awaited ks : List TokenKind} {k : TokenKind}
    (hopen : closing? k = none) (hclosing : isClosing k = false) :
    balanced outside awaited (k :: ks) =
      ((!awaited.isEmpty || outside k) && balanced outside awaited ks) := by
  cases awaited <;> simp [balanced, hopen, hclosing]

theorem closing?_cases {k c : TokenKind} (h : closing? k = some c) :
    (k = .leftBrace ∧ c = .rightBrace) ∨ (k = .leftParen ∧ c = .rightParen) ∨
      (k = .leftBracket ∧ c = .rightBracket) := by
  unfold closing? at h
  split at h <;> cases h <;> simp

theorem isClosing_cases {k : TokenKind} (h : isClosing k) :
    k = .rightBrace ∨ k = .rightParen ∨ k = .rightBracket := by
  unfold isClosing at h
  split at h <;> simp_all

/-- Behind balanced lexemes stands the bracket that closes the one before them. -/
theorem splitClosing_balanced {outside : TokenKind → Bool} (b : Bracket) {close : Lexeme}
    (hclose : close.kind = b.closing) (rest : List Lexeme) {awaited : List TokenKind}
    {inner : List Lexeme} (h : balanced outside awaited (inner.map Lexeme.kind)) :
    splitClosing b (awaited.count b.closing) (inner ++ close :: rest) =
      some (inner, close, rest) := by
  have hne : b.opening ≠ b.closing := by cases b <;> decide
  induction inner generalizing awaited with
  | nil =>
    obtain rfl : awaited = [] := by simpa [balanced] using h
    simp [splitClosing, hclose, hne.symm]
  | cons l inner ih =>
    rw [List.map_cons] at h
    rw [List.cons_append]
    cases hopen : closing? l.kind with
    | some c =>
      rw [balanced_open hopen] at h
      have ih := ih h
      rcases closing?_cases hopen with ⟨hl, rfl⟩ | ⟨hl, rfl⟩ | ⟨hl, rfl⟩ <;> cases b <;>
        simp_all [splitClosing, Bracket.opening, Bracket.closing]
    | none =>
      by_cases hclosing : isClosing l.kind
      · obtain ⟨more, rfl, hmore⟩ := balanced_close hclosing h
        have ih := ih hmore
        rcases isClosing_cases hclosing with hl | hl | hl <;> cases b <;>
          simp_all [splitClosing, Bracket.opening, Bracket.closing]
      · have hclosing : isClosing l.kind = false := by simpa using hclosing
        rw [balanced_other hopen hclosing, Bool.and_eq_true] at h
        have ih := ih h.2
        have hl : l.kind ≠ b.opening ∧ l.kind ≠ b.closing := by
          constructor
          · intro hl
            rw [hl] at hopen
            cases b <;> cases hopen
          · intro hl
            rw [hl] at hclosing
            cases b <;> cases hclosing
        simp [splitClosing, hl.1, hl.2, ih]

/-- Outside all brackets an expression ends with a comma or a semicolon. -/
def insideExpression (k : TokenKind) : Bool := k ≠ .comma && k ≠ .semicolon

theorem splitExpression_open {depth : Nat} {before : Option TokenKind} {l : Lexeme} {c : TokenKind}
    (h : closing? l.kind = some c) (ls : List Lexeme) :
    splitExpression ⟨0, depth, before⟩ (l :: ls) =
      (l :: (splitExpression ⟨0, depth + 1, some l.kind⟩ ls).1,
        (splitExpression ⟨0, depth + 1, some l.kind⟩ ls).2) := by
  rcases closing?_cases h with ⟨hl, _⟩ | ⟨hl, _⟩ | ⟨hl, _⟩ <;> simp [splitExpression, hl]

theorem splitExpression_close {depth : Nat} {before : Option TokenKind} {l : Lexeme}
    (h : isClosing l.kind) (ls : List Lexeme) :
    splitExpression ⟨0, depth + 1, before⟩ (l :: ls) =
      (l :: (splitExpression ⟨0, depth, some l.kind⟩ ls).1,
        (splitExpression ⟨0, depth, some l.kind⟩ ls).2) := by
  rcases isClosing_cases h with hl | hl | hl <;> simp [splitExpression, hl]

theorem splitExpression_less {depth : Nat} {before : Option TokenKind} {l : Lexeme}
    (h : l.kind = .less) (ls : List Lexeme) :
    splitExpression ⟨0, depth, before⟩ (l :: ls) =
      (l :: (splitExpression ⟨(typeArgumentsLength before ls).getD 0, depth, some l.kind⟩ ls).1,
        (splitExpression ⟨(typeArgumentsLength before ls).getD 0, depth, some l.kind⟩ ls).2) := by
  rw [splitExpression]
  simp only [h]

theorem splitExpression_other {depth : Nat} {before : Option TokenKind} {l : Lexeme}
    (hopen : closing? l.kind = none) (hclosing : isClosing l.kind = false) (hless : l.kind ≠ .less)
    (hinside : depth = 0 → insideExpression l.kind) (ls : List Lexeme) :
    splitExpression ⟨0, depth, before⟩ (l :: ls) =
      (l :: (splitExpression ⟨0, depth, some l.kind⟩ ls).1,
        (splitExpression ⟨0, depth, some l.kind⟩ ls).2) := by
  by_cases hstop : l.kind = .comma ∨ l.kind = .semicolon
  · have hdepth : depth ≠ 0 := by
      intro hdepth
      have := hinside hdepth
      rcases hstop with hl | hl <;> simp [insideExpression, hl] at this
    rcases hstop with hl | hl <;> simp [splitExpression, hl, hdepth]
  · rw [not_or] at hstop
    rw [splitExpression]
    cases hl : l.kind <;> simp_all [closing?, isClosing]

/-- The kind that stands before what follows some lexemes. -/
def behind (before : Option TokenKind) (ls : List Lexeme) : Option TokenKind :=
  ls.foldl (fun _ l => some l.kind) before

/-- An expression takes the lexemes in front of others and goes on behind them, with the brackets
open that were open before them. -/
def Crosses (front rest : List Lexeme) : Prop :=
  ∀ depth before, splitExpression ⟨0, depth, before⟩ (front ++ rest) =
    (front ++ (splitExpression ⟨0, depth, behind before front⟩ rest).1,
      (splitExpression ⟨0, depth, behind before front⟩ rest).2)

/-- No angle bracket in lexemes opens type arguments, whatever is before it and with others behind
them. -/
def Comparing (inner rest : List Lexeme) : Prop :=
  ∀ l more, l :: more <:+ inner → l.kind = .less →
    ∀ before, typeArgumentsLength before (more ++ rest) = none

/-- Behind balanced lexemes, the brackets `awaited` before them are closed. -/
theorem splitExpression_balanced {rest : List Lexeme} {awaited : List TokenKind}
    {inner : List Lexeme} (h : balanced insideExpression awaited (inner.map Lexeme.kind))
    (hless : Comparing inner rest) (depth : Nat) (before : Option TokenKind) :
    splitExpression ⟨0, awaited.length + depth, before⟩ (inner ++ rest) =
      (inner ++ (splitExpression ⟨0, depth, behind before inner⟩ rest).1,
        (splitExpression ⟨0, depth, behind before inner⟩ rest).2) := by
  induction inner generalizing awaited before with
  | nil =>
    obtain rfl : awaited = [] := by simpa [balanced] using h
    simp [behind]
  | cons l inner ih =>
    have hmore : Comparing inner rest := fun x more hsuffix =>
      hless x more (hsuffix.trans (List.suffix_cons l inner))
    rw [List.map_cons] at h
    rw [List.cons_append]
    cases hopen : closing? l.kind with
    | some c =>
      rw [balanced_open hopen] at h
      have ih := ih h hmore (some l.kind)
      rw [List.length_cons, Nat.add_right_comm] at ih
      rw [splitExpression_open hopen, ih]
      rfl
    | none =>
      by_cases hclosing : isClosing l.kind
      · obtain ⟨others, rfl, hothers⟩ := balanced_close hclosing h
        rw [List.length_cons, Nat.add_right_comm, splitExpression_close hclosing,
          ih hothers hmore]
        rfl
      · have hclosing : isClosing l.kind = false := by simpa using hclosing
        rw [balanced_other hopen hclosing, Bool.and_eq_true] at h
        have hinside : awaited.length + depth = 0 → insideExpression l.kind := by
          intro hlength
          simpa [List.length_eq_zero_iff.mp (Nat.eq_zero_of_add_eq_zero hlength).1] using h.1
        by_cases hl : l.kind = .less
        · rw [splitExpression_less hl, hless l inner (List.suffix_refl _) hl, Option.getD_none,
            ih h.2 hmore]
          rfl
        · rw [splitExpression_other hopen hclosing hl hinside, ih h.2 hmore]
          rfl

theorem crosses_comparing {inner rest : List Lexeme}
    (h : balanced insideExpression [] (inner.map Lexeme.kind)) (hless : Comparing inner rest) :
    Crosses inner rest := by
  intro depth before
  have hsplit := splitExpression_balanced h hless depth before
  rwa [List.length_nil, Nat.zero_add] at hsplit

theorem crosses_balanced {inner : List Lexeme}
    (h : balanced insideExpression [] (inner.map Lexeme.kind))
    (hless : ∀ l ∈ inner, l.kind ≠ .less) (rest : List Lexeme) : Crosses inner rest :=
  crosses_comparing h fun l _ hsuffix hl =>
    absurd hl (hless l (hsuffix.subset List.mem_cons_self))

/-- An expression ends at a comma or a semicolon behind lexemes that it crosses. -/
theorem expression_eq {inner rest : List Lexeme} {stop : Lexeme}
    (hcrosses : Crosses inner (stop :: rest)) (hne : inner ≠ [])
    (hstop : stop.kind = .comma ∨ stop.kind = .semicolon) :
    expression (inner ++ stop :: rest) = ([], .ok (Lexeme.bareText inner, stop :: rest)) := by
  have hends : splitExpression ⟨0, 0, behind none inner⟩ (stop :: rest) = ([], stop :: rest) := by
    rcases hstop with hl | hl <;> simp [splitExpression, hl]
  have hsplit := hcrosses 0 none
  rw [hends, List.append_nil] at hsplit
  have hempty : (inner ++ stop :: rest).isEmpty = false := by
    cases inner <;> rfl
  have hinner : inner.isEmpty = false := by simpa using hne
  rw [expression, if_neg (by simp [hempty]), hsplit]
  simp only [List.isEmpty_cons, hinner]
  rfl

/-! ### White space -/

theorem isBlank_of_isSpace {c : Char} (h : Lexer.isSpace c) : Text.isBlank c := by
  have hcases : c = ' ' ∨ c = '\t' ∨ c = '\r' ∨ c = '\n' ∨ c = '\x0c' := by
    simpa [Lexer.isSpace, or_assoc] using h
  rcases hcases with rfl | rfl | rfl | rfl | rfl <;> decide

theorem isBlank_of_spaces {cs : List Char} (h : ∀ c ∈ cs, Lexer.isSpace c) :
    ∀ c ∈ cs, Text.isBlank c :=
  fun c hc => isBlank_of_isSpace (h c hc)

/-! ### Raw text -/

/-- A text that may stand where text is kept as it is: tokens without comments and without white
space around them, with balanced brackets and certain kinds only outside of them. -/
structure IsRaw (outside : TokenKind → Bool) (text : String) : Prop where
  error : (lex text).error = none
  plain : ∀ t ∈ (lex text).tokens, t.kind.isTrivia = false
  nonempty : text ≠ ""
  trimmed : Text.trim text = text
  balanced : balanced outside [] ((lex text).tokens.map Token.kind)

instance (outside : TokenKind → Bool) (text : String) : Decidable (IsRaw outside text) :=
  decidable_of_iff ((lex text).error = none ∧ (∀ t ∈ (lex text).tokens, t.kind.isTrivia = false) ∧
      text ≠ "" ∧ Text.trim text = text ∧ balanced outside [] ((lex text).tokens.map Token.kind))
    ⟨fun h => ⟨h.1, h.2.1, h.2.2.1, h.2.2.2.1, h.2.2.2.2⟩,
      fun h => ⟨h.error, h.plain, h.nonempty, h.trimmed, h.balanced⟩⟩

theorem IsRaw.clean {outside : TokenKind → Bool} {text : String} (h : IsRaw outside text) :
    (Word.of text).Clean := by
  have hnonempty : text.toList ≠ [] := fun hnil => h.nonempty (String.toList_eq_nil_iff.mp hnil)
  refine ⟨h.error, h.plain, hnonempty, fun c hc => ?_⟩
  have hblank := (Text.ends_of_trim h.trimmed).1 c hc
  by_contra hspace
  rw [isBlank_of_isSpace (by simpa using hspace)] at hblank
  cases hblank

theorem IsRaw.free {outside : TokenKind → Bool} {text : String} (h : IsRaw outside text) :
    (Word.of text).Free :=
  ⟨h.clean, rfl⟩

theorem sourceText_of_faces {ts : List Token} {ls : List Lexeme}
    (h : Spelled (ts.map fun t => ⟨t.kind, t.text, some t.gap, []⟩) ls) :
    (Lexeme.sourceText ls).toList = ts.flatMap Lexer.spelling := by
  induction ts generalizing ls with
  | nil =>
    cases h
    rfl
  | cons t ts ih =>
    cases h with
    | cons hp hmore =>
      have ih := ih hmore
      simp only [Lexeme.sourceText, List.map_cons, String.join_cons, String.toList_append,
        List.flatMap_cons, Lexer.spelling] at ih ⊢
      rw [ih, hp.leading t.gap rfl, hp.text]

/-- The lexemes of a word are its source text, if it ends in no white space. -/
theorem bareText_word {text : String} (h : (Word.of text).Clean)
    (hlast : ∀ c ∈ text.toList.getLast?, Lexer.isSpace c = false) {ls : List Lexeme}
    (hls : Spelled (Word.of text).pieces ls) : Lexeme.bareText ls = text := by
  obtain ⟨c, cs, htext, hc, hfault, _, _, _⟩ := h.begins
  have hreading : Lexer.Plain .start text.toList := h.reading
  have htiles := hreading.tiles fun hpending => absurd rfl hpending
  rw [hreading.passed_gap_nil (fun _ => rfl) hlast] at htiles
  rw [Word.pieces_eq htext hc hfault] at hls
  have hcs : text.toList = c :: cs := htext
  rw [hcs, Lexer.run_token rfl hc hfault] at htiles
  cases hls with
  | cons hp hmore =>
    apply String.toList_injective
    rw [Lexeme.bareText, String.toList_append, sourceText_of_faces hmore, hp.text, hcs]
    have hgap : (Lexer.State.start.token c cs).gap = "" := rfl
    rw [List.flatMap_cons, Lexer.spelling, hgap] at htiles
    simpa [Lexer.State.start] using htiles

theorem IsRaw.last {outside : TokenKind → Bool} {text : String} (h : IsRaw outside text) :
    ∀ c ∈ text.toList.getLast?, Lexer.isSpace c = false := by
  intro c hc
  have hblank := (Text.ends_of_trim h.trimmed).2 c hc
  by_contra hspace
  rw [isBlank_of_isSpace (by simpa using hspace)] at hblank
  cases hblank

/-- The lexemes of raw text are its source text. -/
theorem IsRaw.bareText {outside : TokenKind → Bool} {text : String} (h : IsRaw outside text)
    {ls : List Lexeme} (hls : Spelled (Word.of text).pieces ls) : Lexeme.bareText ls = text :=
  bareText_word h.clean h.last hls

/-- Between white space, raw text is found again. -/
theorem IsRaw.sourceText {outside : TokenKind → Bool} {text : String} (h : IsRaw outside text)
    {ls : List Lexeme} (hls : Spelled (Word.of text).pieces ls) :
    ∃ before, (∀ c ∈ before.toList, Lexer.isSpace c) ∧ Lexeme.sourceText ls = before ++ text := by
  have hbare := h.bareText hls
  obtain ⟨c, cs, htext, hc, hfault, _, _, _⟩ := h.clean.begins
  rw [Word.pieces_eq htext hc hfault] at hls
  cases hls with
  | cons hp hmore =>
    refine ⟨_, hp.blank rfl, ?_⟩
    rw [← hbare, Lexeme.bareText, Lexeme.sourceText, List.map_cons, String.join_cons,
      String.append_assoc]
    rfl

theorem kinds_spelled {ps : List Piece} {ls : List Lexeme} (h : Spelled ps ls) :
    ls.map Lexeme.kind = ps.map Piece.kind := by
  induction h with
  | nil => rfl
  | cons hp _ ih => rw [List.map_cons, List.map_cons, hp.kind, ih]

theorem kinds_word (text : String) :
    (Word.of text).pieces.map Piece.kind = (lex text).tokens.map Token.kind := by
  unfold Word.pieces Word.of
  cases (lex text).tokens with
  | nil => rfl
  | cons t ts => simp

/-- Text between brackets is read back. -/
theorem reads_enclosed (b : Bracket) {text : String} (h : IsRaw (fun _ => true) text)
    {opening close : Piece} (hclose : close.kind = b.closing) (hfree : close.leading? = none) :
    Reads (enclosed b) (opening :: ((Word.of text).pieces ++ [close])) (fun _ => True) []
      text := by
  intro more ls _ hls
  rw [List.cons_append, List.append_assoc] at hls
  obtain ⟨o, tail, rfl, _, hls⟩ := hls.uncons
  obtain ⟨inner, behind, rfl, hinner, hls⟩ := hls.split
  obtain ⟨l, rest, rfl, hl, hrest⟩ := hls.uncons
  refine ⟨rest, hrest, ?_⟩
  have hbalanced : balanced (fun _ => true) [] (inner.map Lexeme.kind) := by
    rw [kinds_spelled hinner, kinds_word]
    exact h.balanced
  have hsplit := splitClosing_balanced b (hl.kind.trans hclose) rest hbalanced
  rw [List.count_nil] at hsplit
  obtain ⟨before, hbefore, hsource⟩ := h.sourceText hinner
  rw [enclosed, List.tail_cons]
  simp only [hsplit, hsource]
  rw [Text.trim_surrounded h.trimmed (isBlank_of_spaces hbefore)
    (isBlank_of_spaces (hl.blank hfree)) h.nonempty]

/-- A text that may stand as an initializer. Of angle brackets it would depend on what surrounds
them where the expression ends. -/
structure IsExpression (text : String) : Prop extends IsRaw insideExpression text where
  less : ∀ t ∈ (lex text).tokens, t.kind ≠ .less

instance (text : String) : Decidable (IsExpression text) :=
  decidable_of_iff (IsRaw insideExpression text ∧ ∀ t ∈ (lex text).tokens, t.kind ≠ .less)
    ⟨fun h => ⟨h.1, h.2⟩, fun h => ⟨h.toIsRaw, h.less⟩⟩

/-- A text that an expression takes as a whole, whatever stands around it: tokens that it crosses,
without white space around them. -/
structure IsUndivided (text : String) : Prop extends Word.Clean (Word.of text) where
  last : ∀ c ∈ text.toList.getLast?, Lexer.isSpace c = false
  crosses : ∀ ls rest, ls.map Lexeme.kind = (lex text).tokens.map Token.kind → Crosses ls rest

/-- An expression is read back up to the sign behind it. -/
theorem reads_expression {text : String} (h : IsUndivided text) :
    Reads expression (Word.of text).pieces
      (fun more => kindOf more 0 = some .comma ∨ kindOf more 0 = some .semicolon) [] text := by
  intro more ls hmore hls
  obtain ⟨inner, rest, rfl, hinner, hrest⟩ := hls.split
  refine ⟨rest, hrest, ?_⟩
  match more with
  | [] => simp at hmore
  | p :: more =>
    obtain ⟨stop, rest, rfl, hp, _⟩ := hrest.uncons
    have hkinds : inner.map Lexeme.kind = (lex text).tokens.map Token.kind := by
      rw [kinds_spelled hinner, kinds_word]
    have hstop : stop.kind = .comma ∨ stop.kind = .semicolon := by
      simpa [hp.kind] using hmore
    have hne : inner ≠ [] := by
      rintro rfl
      have := bareText_word h.toClean h.last hinner
      exact h.nonempty (by rw [Word.of, ← this]; rfl)
    rw [expression_eq (h.crosses inner (stop :: rest) hkinds) hne hstop,
      bareText_word h.toClean h.last hinner]

theorem IsExpression.isUndivided {text : String} (h : IsExpression text) :
    IsUndivided text := by
  refine ⟨h.clean, h.last, fun ls rest hkinds => crosses_balanced ?_ ?_ rest⟩
  · rw [hkinds]
    exact h.balanced
  · intro l hl hkind
    have hmem := List.mem_map_of_mem (f := Lexeme.kind) hl
    rw [hkinds] at hmem
    obtain ⟨t, ht, htkind⟩ := List.mem_map.mp hmem
    exact h.less t ht (htkind.trans hkind)

end JavaModel.Printing
