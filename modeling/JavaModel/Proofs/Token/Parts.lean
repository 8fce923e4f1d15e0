import JavaModel.Proofs.Printing.RawText
import JavaModel.Proofs.Token.Quoted

/-! Tokens of a part of a text. A token without a fault is measured alike when the text ends behind
it, or anywhere further on, so that a part of a text that begins and ends between tokens reads as
the tokens in it. -/

namespace JavaModel.Lexer

open Text

variable {c : Char} {cs : List Char} {m : Nat}

/-! ### Tokens of a text that ends earlier -/

theorem head?_take_ne {d : Char} (h : cs.head? ≠ some d) (m : Nat) :
    (cs.take m).head? ≠ some d := by
  rw [List.head?_take]
  split
  · nofun
  · exact h

/-- What is taken up to a place begins with what is taken up to an earlier one. -/
theorem exists_take_append {k : Nat} (h : k ≤ m) (cs : List Char) :
    ∃ rest, cs.take m = cs.take k ++ rest := by
  obtain ⟨d, rfl⟩ := Nat.exists_eq_add_of_le h
  exact ⟨_, List.take_add⟩

theorem opensTextBlock_cons (c : Char) (cs : List Char) : opensTextBlock (c :: cs) =
    if c = ' ' || c = '\t' || c = '\x0c' then opensTextBlock cs else isLineEnd c := by
  simp only [opensTextBlock, List.dropWhile_cons]
  by_cases hc : (c = ' ' || c = '\t' || c = '\x0c') = true
  · rw [if_pos hc, if_pos hc]
  · rw [if_neg hc, if_neg hc]

/-- Three quotes that open no text block open none when the text ends earlier. -/
theorem opensTextBlock_cut (h : opensTextBlock cs = false) (m : Nat) :
    opensTextBlock (cs.take m) = false := by
  induction cs generalizing m with
  | nil => simpa using h
  | cons c cs ih =>
    cases m with
    | zero => rfl
    | succ m =>
      rw [opensTextBlock_cons] at h
      rw [List.take_succ_cons, opensTextBlock_cons]
      split
      · rename_i hblank
        rw [if_pos hblank] at h
        exact ih h m
      · rename_i hblank
        rwa [if_neg hblank] at h

/-- A string or a text block. -/
theorem stringLiteral_cut (hfault : (stringLiteral cs).fault = none)
    (hm : (stringLiteral cs).length ≤ m) : stringLiteral (cs.take m) = stringLiteral cs := by
  by_cases hblock : ∃ more, cs = '"' :: '"' :: more ∧ opensTextBlock more
  · obtain ⟨more, rfl, hopens⟩ := hblock
    have hliteral : stringLiteral ('"' :: '"' :: more) = (textBlockBody more).shift 2 := by
      simp only [stringLiteral, hopens, if_true]
    rw [hliteral] at hfault hm ⊢
    simp only [Extent.shift] at hm
    obtain ⟨m, rfl⟩ := Nat.exists_eq_add_of_le' (show 2 ≤ m by omega)
    obtain ⟨rest, hrest⟩ := exists_take_append
      (show (textBlockBody more).length ≤ m by omega) more
    rw [List.take_succ_cons, List.take_succ_cons, hrest]
    simp only [stringLiteral, opensTextBlock_take hfault, hopens, if_true,
      textBlockBody_take more rest hfault]
  · have hclosed : ∀ more, cs = '"' :: '"' :: more → opensTextBlock more = false :=
      fun more heq => by simpa using fun hopens => hblock ⟨more, heq, hopens⟩
    have hcut : ∀ more, cs.take m = '"' :: '"' :: more → opensTextBlock more = false := by
      intro more heq
      obtain ⟨k, rfl⟩ : ∃ k, m = k + 2 := by
        rcases m with _ | _ | k
        · cases heq
        · cases cs <;> cases heq
        · exact ⟨k, rfl⟩
      rcases cs with _ | ⟨c, _ | ⟨d, cs⟩⟩
      · cases heq
      · cases heq
      · obtain ⟨rfl, htail⟩ := List.cons.inj heq
        obtain ⟨rfl, rfl⟩ := List.cons.inj htail
        exact opensTextBlock_cut (hclosed cs rfl) k
    rw [stringLiteral_eq_stringBody hclosed] at hfault hm ⊢
    obtain ⟨rest, hrest⟩ := exists_take_append hm cs
    rw [stringLiteral_eq_stringBody hcut, hrest, stringBody_take cs rest hfault]

/-- A division or a comment. -/
theorem lexeme_slash_cut (hfault : (lexeme '/' cs).2.fault = none)
    (hm : (lexeme '/' cs).2.length ≤ m + 1) : lexeme '/' (cs.take m) = lexeme '/' cs := by
  by_cases hline : cs.head? = some '/'
  · obtain ⟨cs, rfl⟩ := List.head?_eq_some_iff.mp hline
    rw [lexeme_slash_line] at hm ⊢
    simp only [Extent.whole] at hm
    obtain ⟨m, rfl⟩ := Nat.exists_eq_add_of_le' (show 1 ≤ m by omega)
    rw [List.take_succ_cons, lexeme_slash_line, span_take (by omega)]
  by_cases hblock : cs.head? = some '*'
  · obtain ⟨cs, rfl⟩ := List.head?_eq_some_iff.mp hblock
    rw [lexeme_slash_block] at hm hfault ⊢
    simp only [Extent.shift] at hm
    have htwo := two_le_commentBody hfault
    obtain ⟨m, rfl⟩ := Nat.exists_eq_add_of_le' (show 1 ≤ m by omega)
    obtain ⟨rest, hrest⟩ := exists_take_append (show (commentBody cs).length ≤ m by omega) cs
    have hhead : (cs.take m).head? = cs.head? := by rw [List.head?_take, if_neg (by omega)]
    have hbody : commentBody (cs.take m) = commentBody cs := by
      rw [hrest, commentBody_take cs rest hfault]
    rw [List.take_succ_cons, lexeme_slash_block, hbody]
    simp only [commentKind, hbody, hhead]
  · rw [lexeme_slash_of_head hline hblock,
      lexeme_slash_of_head (head?_take_ne hline m) (head?_take_ne hblock m)]

/-- An ellipsis, a number that begins with its point, or a dot. -/
theorem lexeme_dot_cut (hm : (lexeme '.' cs).2.length ≤ m + 1) :
    lexeme '.' (cs.take m) = lexeme '.' cs := by
  by_cases hdots : cs.head? = some '.' ∧ cs.tail.head? = some '.'
  · rw [lexeme_dot, if_pos hdots] at hm
    obtain ⟨cs, rfl⟩ := List.head?_eq_some_iff.mp hdots.1
    obtain ⟨cs, rfl⟩ := List.head?_eq_some_iff.mp hdots.2
    simp only [Extent.whole] at hm
    obtain ⟨m, rfl⟩ := Nat.exists_eq_add_of_le' (show 2 ≤ m by omega)
    rfl
  have hcut : ¬ ((cs.take m).head? = some '.' ∧ (cs.take m).tail.head? = some '.') := by
    rintro ⟨hfirst, hsecond⟩
    rw [← List.drop_one, List.drop_take, List.drop_one] at hsecond
    exact hdots ⟨Decidable.byContradiction fun h => head?_take_ne h m hfirst,
      Decidable.byContradiction fun h => head?_take_ne h _ hsecond⟩
  rw [lexeme_dot, if_neg hdots] at hm
  rw [lexeme_dot, lexeme_dot, if_neg hdots, if_neg hcut]
  by_cases hdigit : cs.head?.any isDigit
  · rw [if_pos hdigit] at hm ⊢
    obtain ⟨d, hd, hd'⟩ := (Option.any_eq_true ..).mp hdigit
    obtain ⟨cs, rfl⟩ := List.head?_eq_some_iff.mp hd
    have htwo := two_le_numberLength hd' cs
    simp only [Extent.whole] at hm
    have hcons : '.' :: (d :: cs).take m = ('.' :: d :: cs).take (m + 1) := rfl
    rw [List.head?_take, if_neg (show m ≠ 0 by omega), if_pos hdigit, hcons, numberLength_take hm]
  · rw [if_neg hdigit, if_neg]
    rw [List.head?_take]
    split
    · exact Bool.false_ne_true
    · exact hdigit

/-- A sign that one certain character doubles. -/
theorem lexeme_pair_cut {c d : Char} {single double : TokenKind}
    (hpair : ∀ cs, lexeme c cs =
      if cs.head? = some d then (double, .whole 2) else (single, .whole 1))
    (hm : (lexeme c cs).2.length ≤ m + 1) : lexeme c (cs.take m) = lexeme c cs := by
  by_cases hhead : cs.head? = some d
  · rw [hpair, if_pos hhead] at hm
    simp only [Extent.whole] at hm
    rw [hpair, hpair, List.head?_take, if_neg (show m ≠ 0 by omega)]
  · rw [hpair, hpair, if_neg hhead, if_neg (head?_take_ne hhead m)]

/-- A token without a fault is the same token when the text ends behind it or further on. -/
theorem lexeme_cut (hfault : (lexeme c cs).2.fault = none) (hm : (lexeme c cs).2.length ≤ m + 1) :
    lexeme c (cs.take m) = lexeme c cs := by
  have hcons : c :: cs.take m = (c :: cs).take (m + 1) := rfl
  by_cases hword : isWordStart c
  · rw [lexeme_word hword] at hm
    have hspan : span isWordPart (c :: cs) ≤ m + 1 := hm
    rw [lexeme_word hword, lexeme_word hword, hcons, span_take hspan, List.take_take,
      Nat.min_eq_left hspan]
  by_cases hdigit : isDigit c
  · rw [lexeme_digit hword hdigit] at hm
    rw [lexeme_digit hword hdigit, lexeme_digit hword hdigit, hcons, numberLength_take hm]
  by_cases hstring : c = '"'
  · subst hstring
    rw [lexeme_quote] at hfault hm ⊢
    simp only [Extent.shift] at hm
    rw [lexeme_quote, stringLiteral_cut hfault (by omega)]
  by_cases hcharacter : c = '\''
  · subst hcharacter
    rw [lexeme_apostrophe] at hfault hm ⊢
    simp only [Extent.shift] at hm
    obtain ⟨rest, hrest⟩ := exists_take_append
      (show (characterBody false cs).length ≤ m by omega) cs
    rw [lexeme_apostrophe, hrest, characterBody_take false cs rest hfault]
  by_cases hslash : c = '/'
  · subst hslash
    exact lexeme_slash_cut hfault hm
  by_cases hdot : c = '.'
  · subst hdot
    exact lexeme_dot_cut hm
  by_cases hcolon : c = ':'
  · subst hcolon
    exact lexeme_pair_cut lexeme_colon hm
  by_cases hminus : c = '-'
  · subst hminus
    exact lexeme_pair_cut lexeme_minus hm
  have hsign := lexeme_sign (by simpa using hword) (by simpa using hdigit) hstring hcharacter hslash
    hdot hcolon hminus
  rw [hsign, hsign]

/-! ### Runs of tokens -/

/-- The kinds and texts of the tokens that are no comments. -/
def significant (ts : List Token) : List (TokenKind × String) :=
  (ts.filter fun t => !t.kind.isTrivia).map form

/-- The characters of tokens from the beginning of the first one to the end of the last. -/
def bare : List Token → List Char
  | [] => []
  | t :: ts => t.text.toList ++ ts.flatMap spelling

theorem significant_cons (t : Token) (ts : List Token) :
    significant (t :: ts) = (if t.kind.isTrivia then [] else [form t]) ++ significant ts := by
  unfold significant
  rw [List.filter_cons]
  cases t.kind.isTrivia <;> rfl

theorem flatMap_spelling_cons (t : Token) (ts : List Token) :
    (t :: ts).flatMap spelling = t.gap.toList ++ bare (t :: ts) := by
  rw [List.flatMap_cons, spelling, bare, List.append_assoc]

/-- A reading passes over white space. -/
theorem run_blanks {gap : List Char} (h : ∀ c ∈ gap, isSpace c) (rest : List Char) {s : State}
    (hs : s.pending = 0) : ∃ s', s'.pending = 0 ∧ run s (gap ++ rest) = run s' rest := by
  induction gap generalizing s with
  | nil => exact ⟨s, hs, rfl⟩
  | cons c gap ih =>
    obtain ⟨hc, hgap⟩ := List.forall_mem_cons.mp h
    rw [List.cons_append, run_space hs hc]
    exact ih hgap hs

/-- Behind some of its tokens a reading still cuts what is left of the text. -/
theorem Cuts.behind {start : Nat} {cs : List Char} {r : Lexed} (h : Cuts start cs r)
    {front back : List Token} (htokens : r.tokens = front ++ back) :
    ∃ start' rest, cs = front.flatMap spelling ++ rest ∧ Cuts start' rest ⟨back, r.error⟩ := by
  induction front generalizing start cs r with
  | nil => exact ⟨start, cs, rfl, by rw [← show r.tokens = back from htokens]; exact h⟩
  | cons t front ih =>
    cases h with
    | blank => cases htokens
    | fault => cases htokens
    | @token _ gap c cs u r hgap hc hfault hkind htext hblank hstart more =>
      obtain ⟨rfl, hmore⟩ := List.cons.inj htokens
      obtain ⟨start', rest, hdrop, hcuts⟩ := ih more hmore
      refine ⟨start', rest, ?_, hcuts⟩
      rw [spelling_append_drop hblank htext, hdrop, List.flatMap_cons, List.append_assoc]

theorem Cuts.spelling_prefix {start : Nat} {cs : List Char} {r : Lexed} (h : Cuts start cs r)
    {front back : List Token} (htokens : r.tokens = front ++ back) :
    front.flatMap spelling <+: cs := by
  obtain ⟨_, rest, rfl, -⟩ := h.behind htokens
  exact List.prefix_append _ _

/-- White space stands before every token. -/
theorem Cuts.gap_isSpace {start : Nat} {cs : List Char} {r : Lexed} (h : Cuts start cs r) :
    ∀ t ∈ r.tokens, ∀ c ∈ t.gap.toList, isSpace c := by
  induction h with
  | blank => nofun
  | fault => nofun
  | token hgap hc hfault hkind htext hblank hstart more ih =>
    refine List.forall_mem_cons.mpr ⟨?_, ih⟩
    rw [hblank, String.toList_ofList]
    exact hgap

/-- Nothing but comments is read in a text. -/
def Wordless (cs : List Char) : Prop :=
  ∀ s : State, s.pending = 0 → (run s cs).error = none ∧ significant (run s cs).tokens = []

theorem wordless_nil : Wordless [] := fun _ _ => ⟨rfl, rfl⟩

theorem wordless_blank {gap : List Char} (h : ∀ c ∈ gap, isSpace c) : Wordless gap := by
  intro s hs
  obtain ⟨s', -, hrun⟩ := run_blanks h [] hs
  rw [List.append_nil] at hrun
  rw [hrun]
  exact ⟨rfl, rfl⟩

/-- The characters of tokens are white space and what stands from the first token on. -/
theorem exists_flatMap_spelling {ts : List Token}
    (h : ∀ t ∈ ts, ∀ c ∈ t.gap.toList, isSpace c) :
    ∃ lead, (∀ c ∈ lead, isSpace c) ∧ ts.flatMap spelling = lead ++ bare ts := by
  cases ts with
  | nil => exact ⟨[], by simp, rfl⟩
  | cons t ts => exact ⟨t.gap.toList, h t List.mem_cons_self, flatMap_spelling_cons t ts⟩

/-- A token is taken without what follows the text behind it. -/
theorem run_token_front {s : State} (hs : s.pending = 0) (hc : isSpace c = false)
    (hfault : (lexeme c cs).2.fault = none) {n : Nat} (hn : (lexeme c cs).2.length = n + 1)
    {rest : List Char} (hrest : rest <+: cs.drop n) :
    ∃ t s', form t = ((lexeme c cs).1, String.ofList ((c :: cs).take (n + 1))) ∧ s'.pending = 0 ∧
      run s (c :: (cs.take n ++ rest)) = ⟨t :: (run s' rest).tokens, (run s' rest).error⟩ := by
  have hcut : cs.take n ++ rest = cs.take (n + rest.length) := by
    rw [List.take_add, ← List.prefix_iff_eq_take.mp hrest]
  have hsame : lexeme c (cs.take n ++ rest) = lexeme c cs := by
    rw [hcut, lexeme_cut hfault (by omega)]
  have hlength : (cs.take n).length = n := by
    have := (lexeme_within c cs).2
    rw [List.length_take]
    omega
  have hpending : (s.begun c (cs.take n ++ rest)).pending = (cs.take n).length := by
    simp only [State.begun, hsame, hn, hlength, Nat.add_sub_cancel]
  obtain ⟨s', hs', hpass⟩ := @run_pass rest _ _ hpending
  refine ⟨s.token c (cs.take n ++ rest), s', ?_, hs', ?_⟩
  · simp only [form, State.token, hsame, hn, List.take_succ_cons]
    rw [List.take_append_of_le_length (by rw [hlength]), List.take_take, Nat.min_self]
  · rw [run_token hs hc (by rw [hsame, hfault]), hpass]

/-- Tokens at the front of a text are read without what follows them, up to comments behind them. -/
theorem Cuts.run_front {start : Nat} {cs : List Char} {r : Lexed} (h : Cuts start cs r)
    {front back : List Token} (htokens : r.tokens = front ++ back) {tail : List Char}
    (hstands : front.flatMap spelling ++ tail <+: cs) (htail : Wordless tail) {s : State}
    (hs : s.pending = 0) {lead : List Char} (hlead : ∀ c ∈ lead, isSpace c) :
    (run s (lead ++ (bare front ++ tail))).error = none ∧
      significant (run s (lead ++ (bare front ++ tail))).tokens = significant front := by
  induction front generalizing start cs r s lead with
  | nil =>
    obtain ⟨s', hs', hrun⟩ := run_blanks hlead (bare [] ++ tail) hs
    rw [hrun]
    exact htail s' hs'
  | cons t front ih =>
    cases h with
    | blank => cases htokens
    | fault => cases htokens
    | @token _ gap c cs t r hgap hc hfault hkind htext hblank hstart more =>
      obtain ⟨rfl, hmore⟩ := List.cons.inj htokens
      obtain ⟨n, hn⟩ := exists_length_lexeme c cs
      rw [hn] at htext more
      rw [spelling_append_drop hblank htext, List.flatMap_cons, List.append_assoc,
        List.prefix_append_right_inj, List.drop_succ_cons] at hstands
      obtain ⟨blanks, hblanks, hfront⟩ := exists_flatMap_spelling fun u hu =>
        more.gap_isSpace u (by rw [hmore]; exact List.mem_append_left _ hu)
      obtain ⟨s', hs', hrun⟩ := run_blanks hlead (bare (t :: front) ++ tail) hs
      obtain ⟨u, s'', hu, hs'', htoken⟩ := run_token_front hs' hc hfault hn hstands
      have hbare : bare (t :: front) ++ tail =
          c :: (cs.take n ++ (front.flatMap spelling ++ tail)) := by
        rw [bare, htext, String.toList_ofList, List.take_succ_cons, List.cons_append,
          List.cons_append, List.append_assoc]
      have hform : form u = form t := by rw [hu, form, hkind, htext]
      have hkinds : u.kind = t.kind := congrArg Prod.fst hform
      obtain ⟨herror, hforms⟩ := ih more hmore hstands hs'' hblanks
      rw [hrun, hbare, htoken, hfront, List.append_assoc]
      refine ⟨herror, ?_⟩
      rw [significant_cons, significant_cons, hforms, hform, hkinds]

/-! ### Runs of tokens without the white space around them -/

theorem significant_append (ts us : List Token) :
    significant (ts ++ us) = significant ts ++ significant us := by
  simp only [significant, List.filter_append, List.map_append]

/-- A comment begins and ends with a slash, unless it reaches to the end of a line. -/
theorem take_comment (hfault : (lexeme c cs).2.fault = none) (hkind : (lexeme c cs).1.isTrivia) :
    (∃ body, (c :: cs).take (lexeme c cs).2.length = '/' :: '/' :: body ∧ ∀ d ∈ body, d ≠ '\n') ∨
      ∃ body, (c :: cs).take (lexeme c cs).2.length = '/' :: (body ++ ['/']) := by
  have hdelimited : (lexeme c cs).1.isDelimited := by
    rw [TokenKind.isDelimited, hkind, Bool.or_true]
  rcases Quotation.lexeme_isDelimited hdelimited with rfl | rfl | ⟨rfl, hhead | hhead⟩
  · cases hkind
  · cases hkind
  · obtain ⟨more, rfl⟩ := List.head?_eq_some_iff.mp hhead
    refine .inl ⟨more.takeWhile (· ≠ '\n'), ?_, fun d hd => ?_⟩
    · rw [lexeme_slash_line]
      simp only [Extent.whole, List.take_succ_cons, span,
        ← List.prefix_iff_eq_take.mp (List.takeWhile_prefix _)]
    · simpa using List.all_eq_true.mp List.all_takeWhile d hd
  · obtain ⟨more, rfl⟩ := List.head?_eq_some_iff.mp hhead
    rcases Quotation.lexeme_endsAt
        (show Quotation.opened? ('/' :: '*' :: more) = _ from rfl) with
      ⟨n, -, htake, -⟩ | ⟨-, hbroken⟩
    · exact .inr ⟨'*' :: (more.take n ++ ['*']), by simp [htake, Quotation.comment]⟩
    · exact absurd hfault hbroken

/-- Every token is what is measured of some text. -/
theorem Cuts.text_of_mem {start : Nat} {cs : List Char} {r : Lexed} (h : Cuts start cs r) :
    ∀ t ∈ r.tokens, ∃ c cs, (lexeme c cs).2.fault = none ∧ t.kind = (lexeme c cs).1 ∧
      t.text.toList = (c :: cs).take (lexeme c cs).2.length := by
  induction h with
  | blank => nofun
  | fault => nofun
  | token hgap hc hfault hkind htext hblank hstart more ih =>
    exact List.forall_mem_cons.mpr ⟨⟨_, _, hfault, hkind, by rw [htext, String.toList_ofList]⟩, ih⟩

/-- A comment up to the end of its line is read as nothing, however much of it there is. -/
theorem wordless_lineComment {gap body : List Char} (hgap : ∀ c ∈ gap, isSpace c)
    (hbody : ∀ d ∈ body, d ≠ '\n') : Wordless (gap ++ '/' :: '/' :: body) := by
  intro s hs
  obtain ⟨s', hs', hrun⟩ := run_blanks hgap ('/' :: '/' :: body) hs
  have hspan : span (· ≠ '\n') body = body.length := by
    rw [span, List.takeWhile_eq_self_iff.mpr fun d hd => by simpa using hbody d hd]
  have hlexeme : lexeme '/' ('/' :: body) = (.lineComment, .whole (body.length + 2)) := by
    rw [lexeme_slash_line, hspan]
  have hpending : (s'.begun '/' ('/' :: body)).pending = ('/' :: body).length := by
    simp [State.begun, hlexeme, Extent.whole]
  obtain ⟨s'', -, hpass⟩ := @run_pass [] _ _ hpending
  rw [List.append_nil] at hpass
  rw [hrun, run_token hs' (by decide) (by rw [hlexeme]; rfl), hpass]
  refine ⟨rfl, ?_⟩
  rw [significant_cons, State.token, hlexeme]
  rfl

theorem bare_concat (front : List Token) (u : Token) :
    ∃ before, bare (front ++ [u]) = before ++ u.text.toList ∧
      (front = [] ∧ before = [] ∨ before = bare front ++ u.gap.toList) := by
  cases front with
  | nil => exact ⟨[], by simp [bare], .inl ⟨rfl, rfl⟩⟩
  | cons t front =>
    exact ⟨_, by simp [bare, spelling], .inr rfl⟩

/-- No token but a comment begins or ends a run with white space that is read as part of it. -/
structure Edged (ts : List Token) : Prop where
  first : ∀ t ∈ ts.head?, t.kind.isTrivia = false → ∀ c ∈ t.text.toList.head?, isBlank c = false
  last : ∀ t ∈ ts.getLast?, t.kind.isTrivia = false →
    ∀ c ∈ t.text.toList.getLast?, isBlank c = false

theorem Cuts.head_of_trivia {start : Nat} {cs : List Char} {r : Lexed} (h : Cuts start cs r) :
    ∀ t ∈ r.tokens, ∃ c more, t.text.toList = c :: more ∧
      (t.kind.isTrivia → isBlank c = false) := by
  intro t ht
  obtain ⟨c, cs, hfault, hkind, htext⟩ := h.text_of_mem t ht
  obtain ⟨n, hn⟩ := exists_length_lexeme c cs
  refine ⟨c, cs.take n, by rw [htext, hn, List.take_succ_cons], fun htrivia => ?_⟩
  rw [hkind] at htrivia
  rw [hn, List.take_succ_cons] at htext
  rcases take_comment hfault htrivia with ⟨body, hbody, -⟩ | ⟨body, hbody⟩ <;>
    rw [hn, List.take_succ_cons] at hbody <;> rw [(List.cons.inj hbody).1] <;> decide

section Trimmed

variable {start : Nat} {r : Lexed} {front back : List Token} {gap : List Char} {s : State}

theorem Cuts.trimLeft_tokens (h : Cuts start cs r) (htokens : r.tokens = front ++ back)
    (hgap : ∀ c ∈ gap, isSpace c) (hedged : Edged front) :
    trimLeft (front.flatMap spelling ++ gap) = bare front ++ if front = [] then [] else gap := by
  have hmem : ∀ t ∈ front, t ∈ r.tokens := fun t ht => by
    rw [htokens]
    exact List.mem_append_left _ ht
  obtain ⟨lead, hlead, hfront⟩ := exists_flatMap_spelling fun t ht => h.gap_isSpace t (hmem t ht)
  rw [hfront, List.append_assoc, trimLeft_append (Printing.isBlank_of_spaces hlead)]
  cases front with
  | nil => exact trimLeft_blank (Printing.isBlank_of_spaces hgap)
  | cons t front =>
    obtain ⟨c, more, htext, htrivia⟩ := h.head_of_trivia t (hmem t List.mem_cons_self)
    have hc : isBlank c = false := by
      cases hkind : t.kind.isTrivia with
      | true => exact htrivia hkind
      | false => exact hedged.first t rfl hkind c (by rw [htext]; rfl)
    simp [bare, htext, trimLeft, hc]

/-- Of a comment up to the end of its line the white space at the end is lost. -/
theorem Cuts.run_trimmed_comment {u : Token} (h : Cuts start cs r)
    (htokens : r.tokens = front ++ u :: back) (hstands : (front ++ [u]).flatMap spelling <+: cs)
    (hkind : u.kind.isTrivia) {body : List Char} (htext : u.text.toList = '/' :: '/' :: body)
    (hbody : ∀ d ∈ body, d ≠ '\n') (hs : s.pending = 0) :
    (run s (trimRight (bare (front ++ [u])))).error = none ∧
      significant (run s (trimRight (bare (front ++ [u])))).tokens =
        significant (front ++ [u]) := by
  obtain ⟨before, hbare, hbefore⟩ := bare_concat front u
  have hshort := trimRight_prefix body
  have hnone : ∀ d ∈ trimRight body, d ≠ '\n' := fun d hd => hbody d (hshort.subset hd)
  have hslash : trimRight ('/' :: body) = '/' :: trimRight body :=
    trimRight_cons (by decide) [] body
  have hsignificant : significant (front ++ [u]) = significant front := by
    rw [significant_append, significant_cons, if_pos hkind, List.nil_append]
    exact List.append_nil _
  rw [hbare, htext, trimRight_cons (by decide), hslash, hsignificant]
  rcases hbefore with ⟨rfl, rfl⟩ | rfl
  · exact wordless_lineComment (List.forall_mem_nil _) hnone s hs
  · have hblank := h.gap_isSpace u (by simp [htokens])
    rw [List.append_assoc]
    refine h.run_front htokens ?_ (wordless_lineComment hblank hnone) hs (List.forall_mem_nil _)
    refine List.IsPrefix.trans ?_ hstands
    rw [List.flatMap_append, List.prefix_append_right_inj, List.flatMap_singleton, spelling,
      htext, List.prefix_append_right_inj, List.cons_prefix_cons, List.cons_prefix_cons]
    exact ⟨rfl, rfl, hshort⟩

/-- Any other token ends a run with a character that is not lost. -/
theorem Cuts.trimRight_tokens {u : Token} (h : Cuts start cs r) (hu : u ∈ r.tokens)
    (hedged : Edged (front ++ [u])) (hline : ∀ body, u.text.toList = '/' :: '/' :: body →
      (∀ d ∈ body, d ≠ '\n') → u.kind.isTrivia = false) :
    trimRight (bare (front ++ [u])) = bare (front ++ [u]) := by
  obtain ⟨c, cs, hfault, hlexeme, htext⟩ := h.text_of_mem u hu
  have hlast : ∀ d ∈ u.text.toList.getLast?, isBlank d = false := by
    cases hkind : u.kind.isTrivia with
    | false => exact hedged.last u (by simp) hkind
    | true =>
      rcases take_comment hfault (hlexeme ▸ hkind) with ⟨body, hbody, hnone⟩ | ⟨body, hbody⟩
      · rw [hline body (htext.trans hbody) hnone] at hkind
        cases hkind
      · rw [htext, hbody, ← List.cons_append, List.getLast?_append]
        rintro d ⟨⟩
        decide
  obtain ⟨before, hbare, -⟩ := bare_concat front u
  obtain ⟨d, more, hnonempty, -⟩ := h.head_of_trivia u hu
  refine trimRight_eq_self fun d hd => hlast d ?_
  rwa [hbare, List.getLast?_append_of_ne_nil _ (by rw [hnonempty]; simp)] at hd

/-- Without the white space around it, a run of tokens is read as its tokens, if no token at its
edges loses a part of it. -/
theorem Cuts.run_trimmed (h : Cuts start cs r) (htokens : r.tokens = front ++ back)
    (hgap : ∀ c ∈ gap, isSpace c) (hstands : front.flatMap spelling ++ gap <+: cs)
    (hedged : Edged front) (hs : s.pending = 0) :
    (run s (trimRight (trimLeft (front.flatMap spelling ++ gap)))).error = none ∧
      significant (run s (trimRight (trimLeft (front.flatMap spelling ++ gap)))).tokens =
        significant front := by
  have hshort' : front.flatMap spelling <+: cs := (List.prefix_append _ _).trans hstands
  rw [h.trimLeft_tokens htokens hgap hedged]
  rcases List.eq_nil_or_concat' front with rfl | ⟨front, u, rfl⟩
  · exact ⟨rfl, rfl⟩
  rw [if_neg (by simp), trimRight_append (Printing.isBlank_of_spaces hgap)]
  have hbehind : r.tokens = front ++ u :: back := by rw [htokens]; simp
  by_cases hline : ∃ body, u.text.toList = '/' :: '/' :: body ∧ (∀ d ∈ body, d ≠ '\n') ∧
      u.kind.isTrivia
  · obtain ⟨body, htext, hbody, hkind⟩ := hline
    exact h.run_trimmed_comment hbehind hshort' hkind htext hbody hs
  · rw [h.trimRight_tokens (by simp [hbehind]) hedged fun body htext hbody => by
      simpa using fun hkind => hline ⟨body, htext, hbody, hkind⟩]
    have hread := h.run_front htokens (by rwa [List.append_nil]) wordless_nil hs
      (List.forall_mem_nil _)
    rwa [List.append_nil] at hread

end Trimmed

end JavaModel.Lexer
