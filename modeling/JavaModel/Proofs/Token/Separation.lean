import Mathlib.Data.List.TakeWhile
import JavaModel.Proofs.Token.Tiling

/-! Tokens set apart. A token without a fault is measured alike when what stands behind it moves
away and the line ends there, so that the tokens of a text, written one to a line, read as the same
tokens again. -/

namespace JavaModel

namespace Lexer

variable {rest : List Char}

/-! ### Numbers without what follows them -/

theorem span_take {p : Char → Bool} {cs : List Char} {n : Nat} (h : span p cs ≤ n) :
    span p (cs.take n) = span p cs := by
  induction cs generalizing n with
  | nil => simp
  | cons c cs ih =>
    cases n with
    | zero =>
      rw [Nat.le_zero.mp h]
      rfl
    | succ n =>
      simp only [span, List.take_succ_cons, List.takeWhile_cons] at h ih ⊢
      split
      · rename_i hc
        rw [if_pos hc, List.length_cons, Nat.add_le_add_iff_right] at h
        simp [ih h]
      · rfl

theorem numberSuffix_take {cs : List Char} {n : Nat} (h : numberSuffix cs ≤ n) :
    numberSuffix (cs.take n) = numberSuffix cs := by
  cases n with
  | zero =>
    rw [Nat.le_zero.mp h]
    rfl
  | succ n => cases cs <;> rfl

theorem fraction_take {cs : List Char} {n : Nat} (h : fraction cs ≤ n) :
    fraction (cs.take n) = fraction cs := by
  cases n with
  | zero =>
    rw [Nat.le_zero.mp h]
    rfl
  | succ n =>
    cases cs with
    | nil => rfl
    | cons c cs =>
      by_cases hc : c = '.'
      · subst hc
        have hspan : span isDecimalPart cs ≤ n := Nat.le_of_succ_le_succ h
        simp only [List.take_succ_cons, fraction, span_take hspan]
      · simp [fraction, hc]

theorem exponent_take {cs : List Char} {n : Nat} (h : exponent cs ≤ n) :
    exponent (cs.take n) = exponent cs := by
  match cs, n with
  | [], _ => simp
  | c :: cs, 0 =>
    rw [Nat.le_zero.mp h]
    rfl
  | [c], n + 1 => simp
  | c :: s :: ds, n + 1 =>
    simp only [List.take_succ_cons, exponent] at h ⊢
    split
    · rename_i hc
      rw [if_pos hc] at h
      cases n with
      | zero =>
        -- An exponent takes two characters at least.
        simp only [List.take_zero]
        split at h <;> split at h <;> rename_i hspan <;> simp_all
      | succ n =>
        simp only [List.take_succ_cons]
        split
        · rename_i hs
          rw [if_pos hs] at h
          have hdigits : span isDigit (ds.take n) = span isDigit ds := by
            refine span_take ?_
            split at h <;> omega
          rw [hdigits]
        · rename_i hs
          rw [if_neg hs] at h
          have hdigits : span isDigit ((s :: ds).take (n + 1)) = span isDigit (s :: ds) := by
            apply span_take
            split at h <;> omega
          rw [List.take_succ_cons] at hdigits
          rw [hdigits]
    · rfl

theorem basedDigits_take {cs : List Char} {n : Nat} (h : basedDigits cs + 2 ≤ n) :
    basedDigits (cs.take n) = basedDigits cs := by
  obtain ⟨n, rfl⟩ := Nat.exists_eq_add_of_le' (Nat.le_of_add_left_le h)
  match cs with
  | [] => simp
  | [c] => simp
  | c :: x :: ds =>
    by_cases hc : c = '0'
    · subst hc
      simp only [List.take_succ_cons, basedDigits] at h ⊢
      split
      · rename_i hx
        rw [if_pos hx] at h
        exact span_take (by omega)
      · rename_i hx
        rw [if_neg hx] at h
        split
        · rename_i hx
          rw [if_pos hx] at h
          exact span_take (by omega)
        · rfl
    · simp [basedDigits, hc]

/-- Without digits behind a base sign there are none in a shorter text. -/
theorem basedDigits_take_eq_zero {cs : List Char} (h : basedDigits cs = 0) (n : Nat) :
    basedDigits (cs.take n) = 0 := by
  match cs, n with
  | _, 0 => rfl
  | [], n + 1 => rfl
  | c :: cs, 1 => simp [basedDigits]
  | [c], n + 2 => simpa using h
  | c :: x :: ds, n + 2 =>
    by_cases hc : c = '0'
    · subst hc
      simp only [List.take_succ_cons, basedDigits] at h ⊢
      split
      · rename_i hx
        rw [if_pos hx] at h
        rw [span_take (by omega), h]
      · rename_i hx
        rw [if_neg hx] at h
        split
        · rename_i hx
          rw [if_pos hx] at h
          rw [span_take (by omega), h]
        · rfl
    · simp [basedDigits, hc]

theorem decimalLength_take {cs : List Char} {n : Nat} (h : decimalLength cs ≤ n) :
    decimalLength (cs.take n) = decimalLength cs := by
  unfold decimalLength at h ⊢
  dsimp only at h ⊢
  rw [span_take (by omega)]
  generalize span isDecimalPart cs = digits at h ⊢
  rw [List.drop_take, fraction_take (by omega)]
  generalize fraction (cs.drop digits) = point at h ⊢
  rw [List.drop_take, exponent_take (by omega)]
  generalize exponent (cs.drop (digits + point)) = power at h ⊢
  rw [List.drop_take, numberSuffix_take (by omega)]

/-- A number is a number of its length without what follows it. -/
theorem numberLength_take {cs : List Char} {n : Nat} (h : numberLength cs ≤ n) :
    numberLength (cs.take n) = numberLength cs := by
  cases hbased : basedDigits cs with
  | zero =>
    rw [numberLength_of_decimal hbased] at h ⊢
    rw [numberLength_of_decimal (basedDigits_take_eq_zero hbased _), decimalLength_take h]
  | succ k =>
    rw [numberLength_of_based hbased] at h ⊢
    have hsame : basedDigits (cs.take n) = k + 1 := by rw [basedDigits_take (by omega), hbased]
    rw [numberLength_of_based hsame, List.drop_take, numberSuffix_take (by omega)]

/-! ### Literals and comments without what follows them -/

theorem take_shift_one (c : Char) (cs : List Char) (e : Extent) :
    (c :: cs).take (e.shift 1).length = c :: cs.take e.length := by
  rw [Extent.shift, Nat.add_comm, List.take_succ_cons]

theorem take_shift_two (c d : Char) (cs : List Char) (e : Extent) :
    (c :: d :: cs).take (e.shift 2).length = c :: d :: cs.take e.length := by
  rw [Extent.shift, Nat.add_comm, List.take_succ_cons, List.take_succ_cons]

theorem stringBody_take (cs rest : List Char) (h : (stringBody cs).fault = none) :
    stringBody (cs.take (stringBody cs).length ++ rest) = stringBody cs := by
  induction cs using stringBody.induct with
  | case1 | case2 => cases h
  | case3 e cs he ih =>
    simp only [stringBody, he, if_true] at h ⊢
    rw [take_shift_two, List.cons_append, List.cons_append]
    simp only [stringBody, he, if_true, ih h]
  | case4 e cs he hline => simp [stringBody, he, hline, Extent.broken] at h
  | case5 e cs he hline => simp [stringBody, he, hline, Extent.broken] at h
  | case6 cs _ _ =>
    rw [stringBody_cons (by decide), if_pos rfl]
    exact stringBody_cons (by decide) rest
  | case7 c cs hend hmore hquote hline =>
    rw [stringBody_cons (ne_backslash hend hmore), if_neg hquote, if_pos hline] at h
    cases h
  | case8 c cs hend hmore hquote hline ih =>
    have hc := ne_backslash hend hmore
    rw [stringBody_cons hc, if_neg hquote, if_neg hline] at h ⊢
    rw [take_shift_one, List.cons_append, stringBody_cons hc, if_neg hquote, if_neg hline, ih h]

theorem characterBody_take (seen : Bool) (cs rest : List Char)
    (h : (characterBody seen cs).fault = none) :
    characterBody seen (cs.take (characterBody seen cs).length ++ rest) =
      characterBody seen cs := by
  induction seen, cs using characterBody.induct with
  | case1 | case2 => cases h
  | case3 seen e cs he ih =>
    simp only [characterBody, he, if_true] at h ⊢
    rw [take_shift_two, List.cons_append, List.cons_append]
    simp only [characterBody, he, if_true, ih h]
  | case4 seen e cs he => simp [characterBody, he, Extent.broken] at h
  | case5 seen c cs hend hmore hquote =>
    have hc := ne_backslash hend hmore
    rw [characterBody_cons hc, if_pos hquote]
    simp only [Extent.whole, List.take_succ_cons, List.take_zero, List.cons_append]
    rw [characterBody_cons hc, if_pos hquote]
    rfl
  | case6 seen c cs hend hmore hquote hline =>
    rw [characterBody_cons (ne_backslash hend hmore), if_neg hquote, if_pos hline] at h
    cases h
  | case7 seen c cs hend hmore hquote hline ih =>
    have hc := ne_backslash hend hmore
    rw [characterBody_cons hc, if_neg hquote, if_neg hline] at h ⊢
    rw [take_shift_one, List.cons_append, characterBody_cons hc, if_neg hquote, if_neg hline, ih h]

/-- A comment goes on behind a character that does not close it. -/
theorem commentBody_cons {c : Char} {cs : List Char} (h : ¬ (c = '*' ∧ cs.head? = some '/')) :
    commentBody (c :: cs) = (commentBody cs).shift 1 := by
  rw [commentBody.eq_def (c :: cs)]
  split
  · rename_i heq; cases heq
  · rename_i heq
    obtain ⟨rfl, rfl⟩ := List.cons.inj heq
    exact absurd ⟨rfl, rfl⟩ h
  · rename_i heq
    obtain ⟨rfl, rfl⟩ := List.cons.inj heq
    rfl

theorem two_le_commentBody {cs : List Char} (h : (commentBody cs).fault = none) :
    2 ≤ (commentBody cs).length := by
  fun_induction commentBody cs with
  | case1 => cases h
  | case2 => simp [Extent.whole]
  | case3 c cs hclose ih =>
    have := ih h
    simp only [Extent.shift]
    omega

/-- The front of a text begins as the text does. -/
theorem head?_take_append {n : Nat} (hn : 0 < n) {cs : List Char} (hcs : n ≤ cs.length)
    (rest : List Char) : (cs.take n ++ rest).head? = cs.head? := by
  cases cs with
  | nil => simp only [List.length_nil] at hcs; omega
  | cons c cs =>
    obtain ⟨n, rfl⟩ := Nat.exists_eq_succ_of_ne_zero (Nat.ne_of_gt hn)
    rfl

theorem commentBody_take (cs rest : List Char) (h : (commentBody cs).fault = none) :
    commentBody (cs.take (commentBody cs).length ++ rest) = commentBody cs := by
  induction cs using commentBody.induct with
  | case1 => cases h
  | case2 => rfl
  | case3 c cs hclose ih =>
    have hopen : ¬ (c = '*' ∧ cs.head? = some '/') := by
      rintro ⟨rfl, hhead⟩
      cases cs with
      | nil => cases hhead
      | cons d more => exact hclose more rfl (by rw [Option.some.inj hhead])
    rw [commentBody_cons hopen] at h ⊢
    have hlength := two_le_commentBody h
    have hsame := head?_take_append (by omega) (commentBody_le cs) rest
    rw [take_shift_one, List.cons_append, commentBody_cons (by rwa [hsame]), ih h]

theorem three_le_textBlockBody {cs : List Char} (h : (textBlockBody cs).fault = none) :
    3 ≤ (textBlockBody cs).length := by
  fun_induction textBlockBody cs with
  | case1 | case2 => cases h
  | case3 e cs ih | case5 c cs _ _ _ ih =>
    have := ih h
    simp only [Extent.shift]
    omega
  | case4 => simp [Extent.whole]

theorem textBlockBody_take (cs rest : List Char) (h : (textBlockBody cs).fault = none) :
    textBlockBody (cs.take (textBlockBody cs).length ++ rest) = textBlockBody cs := by
  induction cs using textBlockBody.induct with
  | case1 | case2 => cases h
  | case3 e cs ih =>
    simp only [textBlockBody] at h ⊢
    rw [take_shift_two, List.cons_append, List.cons_append]
    simp only [textBlockBody, ih h]
  | case4 tail => rfl
  | case5 c cs hend hmore hquotes ih =>
    have hc := ne_backslash hend hmore
    rw [textBlockBody_cons hc hquotes] at h ⊢
    have hlength := three_le_textBlockBody h
    -- The two characters behind this one are the same in front of any rest.
    have hquotes' : ∀ tail, c = '"' → cs.take (textBlockBody cs).length ++ rest =
        '"' :: '"' :: tail → False := by
      intro tail hc' heq
      have hle := textBlockBody_le cs
      obtain _ | ⟨d, _ | ⟨e, cs⟩⟩ := cs
      · exact absurd (hlength.trans hle) (Nat.not_succ_le_zero _)
      · rw [List.length_singleton] at hle
        omega
      · obtain ⟨n, hn⟩ := Nat.exists_eq_add_of_le' (Nat.le_of_succ_le hlength)
        rw [hn, List.take_succ_cons, List.take_succ_cons] at heq
        obtain ⟨hd, heq⟩ := List.cons.inj heq
        exact hquotes cs hc' (by rw [hd, (List.cons.inj heq).1])
    rw [take_shift_one, List.cons_append, textBlockBody_cons hc hquotes', ih h]

/-- A text block holds the quotes that close it. -/
theorem quote_mem_textBlockBody {cs : List Char} (h : (textBlockBody cs).fault = none) :
    '"' ∈ cs.take (textBlockBody cs).length := by
  induction cs using textBlockBody.induct with
  | case1 | case2 => cases h
  | case3 e cs ih =>
    simp only [textBlockBody] at h ⊢
    rw [take_shift_two]
    simp [ih h]
  | case4 tail => exact List.mem_cons_self
  | case5 c cs hend hmore hquotes ih =>
    rw [textBlockBody_cons (ne_backslash hend hmore) hquotes] at h ⊢
    rw [take_shift_one]
    exact List.mem_cons_of_mem _ (ih h)

/-- Whether three quotes open a text block is seen in what the block holds. -/
theorem opensTextBlock_take {cs : List Char} (h : (textBlockBody cs).fault = none)
    (rest : List Char) :
    opensTextBlock (cs.take (textBlockBody cs).length ++ rest) = opensTextBlock cs := by
  have hblanks : (cs.take (textBlockBody cs).length).dropWhile
      (fun c => c = ' ' || c = '\t' || c = '\x0c') ≠ [] := by
    intro hnil
    have hblank := List.dropWhile_eq_nil_iff.mp hnil _ (quote_mem_textBlockBody h)
    simp at hblank
  have hwhole := opensTextBlock_append hblanks (cs.drop (textBlockBody cs).length)
  rw [List.take_append_drop] at hwhole
  rw [opensTextBlock_append hblanks, hwhole]

theorem stringBody_pos {cs : List Char} (h : (stringBody cs).fault = none) :
    0 < (stringBody cs).length := by
  fun_induction stringBody cs with
  | case1 | case2 | case4 | case5 | case7 => cases h
  | case3 | case8 =>
    simp only [Extent.shift]
    omega
  | case6 => exact Nat.one_pos

/-- A string that opens no text block, even an empty one, is a plain string. -/
theorem stringLiteral_eq_stringBody {cs : List Char}
    (h : ∀ more, cs = '"' :: '"' :: more → opensTextBlock more = false) :
    stringLiteral cs = stringBody cs := by
  unfold stringLiteral
  split
  · rename_i more
    rw [h more rfl]
    rfl
  · rfl

/-- A string by itself does not begin with two quotes. -/
theorem stringBody_take_ne (hquote : rest.head? ≠ some '"') {cs : List Char}
    (h : (stringBody cs).fault = none) (more : List Char) :
    cs.take (stringBody cs).length ++ rest ≠ '"' :: '"' :: more := by
  intro heq
  cases cs with
  | nil => cases h
  | cons c cs =>
    by_cases hc : c = '"'
    · subst hc
      rw [stringBody_cons (by decide), if_pos rfl] at heq
      simp only [Extent.whole, List.take_succ_cons, List.take_zero, List.cons_append,
        List.nil_append, List.cons.injEq, true_and] at heq
      exact hquote (by rw [heq]; rfl)
    · have hhead := head?_take_append (stringBody_pos h) (stringBody_le _) rest
      rw [heq] at hhead
      exact hc (Option.some.inj hhead).symm

theorem stringLiteral_take (hrest : Apart rest) (cs : List Char)
    (h : (stringLiteral cs).fault = none) :
    stringLiteral (cs.take (stringLiteral cs).length ++ rest) = stringLiteral cs := by
  have hquote : rest.head? ≠ some '"' := by
    intro hhead
    have := hrest.head (fun c => c = '"') (by decide) '"' hhead
    simp at this
  by_cases hblock : ∃ more, cs = '"' :: '"' :: more ∧ opensTextBlock more
  · obtain ⟨more, rfl, hopens⟩ := hblock
    have hliteral : stringLiteral ('"' :: '"' :: more) = (textBlockBody more).shift 2 := by
      simp only [stringLiteral, hopens, if_true]
    rw [hliteral] at h ⊢
    rw [take_shift_two, List.cons_append, List.cons_append]
    simp only [stringLiteral, opensTextBlock_take h, hopens, if_true,
      textBlockBody_take more rest h]
  · have hplain : stringLiteral cs = stringBody cs :=
      stringLiteral_eq_stringBody fun more heq => by
        simpa using fun hopens => hblock ⟨more, heq, hopens⟩
    rw [hplain] at h ⊢
    have halone := stringBody_take_ne hquote h
    rw [stringLiteral_eq_stringBody fun more heq => absurd heq (halone more),
      stringBody_take cs rest h]

/-! ### Tokens without what follows them -/

/-- The text ends here or goes on in another line. -/
def Ends (rest : List Char) : Prop := ∀ c ∈ rest.head?, c = '\n'

theorem Ends.apart (h : Ends rest) : Apart rest := by
  intro c hc
  rw [h c hc]
  decide

/-- A measure that stays when its text is cut behind it stays with whatever it stops at behind. -/
theorem span_take_append {p : Char → Bool} (h : ∀ c ∈ rest.head?, p c = false) (cs : List Char) :
    span p (cs.take (span p cs) ++ rest) = span p cs := by
  rw [span_append h, span_take (Nat.le_refl _)]

theorem head?_ne_of_ends (h : Ends rest) {d : Char} (hd : d ≠ '\n') : rest.head? ≠ some d :=
  fun hhead => hd (h d hhead)

theorem lexeme_word {c : Char} (hword : isWordStart c) (cs : List Char) :
    lexeme c cs = (TokenKind.ofWord (String.ofList ((c :: cs).take (span isWordPart (c :: cs)))),
      .whole (span isWordPart (c :: cs))) := by
  simp only [lexeme, hword, if_true]

theorem lexeme_digit {c : Char} (hword : ¬ isWordStart c) (hdigit : isDigit c)
    (cs : List Char) : lexeme c cs = (.number, .whole (numberLength (c :: cs))) := by
  simp only [lexeme]
  rw [if_neg hword, if_pos hdigit]

/-- A sign that one certain character doubles, by itself. -/
theorem lexeme_pair_take (hrest : Ends rest) {c d : Char} {single double : TokenKind}
    (hpair : ∀ cs, lexeme c cs =
      if cs.head? = some d then (double, .whole 2) else (single, .whole 1)) (hd : d ≠ '\n')
    {cs : List Char} {n : Nat} (hn : (lexeme c cs).2.length = n + 1) :
    lexeme c (cs.take n ++ rest) = lexeme c cs := by
  by_cases hhead : cs.head? = some d
  · rw [hpair, if_pos hhead] at hn
    obtain rfl : 1 = n := Nat.succ.inj hn
    obtain ⟨cs, rfl⟩ := List.head?_eq_some_iff.mp hhead
    rw [hpair, hpair]
    rfl
  · rw [hpair, if_neg hhead] at hn
    obtain rfl : 0 = n := Nat.succ.inj hn
    rw [hpair, hpair, if_neg hhead]
    exact if_neg (head?_ne_of_ends hrest hd)

theorem lexeme_slash_line (cs : List Char) :
    lexeme '/' ('/' :: cs) = (.lineComment, .whole (span (· ≠ '\n') cs + 2)) := rfl

theorem lexeme_slash_block (cs : List Char) :
    lexeme '/' ('*' :: cs) = (commentKind cs, (commentBody cs).shift 2) := rfl

/-- A division, a line comment or a block comment, by itself. -/
theorem lexeme_slash_take (hrest : Ends rest) {cs : List Char} {n : Nat}
    (hfault : (lexeme '/' cs).2.fault = none) (hn : (lexeme '/' cs).2.length = n + 1) :
    lexeme '/' (cs.take n ++ rest) = lexeme '/' cs := by
  by_cases hline : cs.head? = some '/'
  · obtain ⟨cs, rfl⟩ := List.head?_eq_some_iff.mp hline
    have hends : ∀ c ∈ rest.head?, decide (c ≠ '\n') = false := fun c hc => by simp [hrest c hc]
    rw [lexeme_slash_line] at hn ⊢
    obtain rfl : span (· ≠ '\n') cs + 1 = n := Nat.succ.inj hn
    rw [List.take_succ_cons, List.cons_append, lexeme_slash_line, span_take_append hends]
  by_cases hblock : cs.head? = some '*'
  · obtain ⟨cs, rfl⟩ := List.head?_eq_some_iff.mp hblock
    rw [lexeme_slash_block] at hn hfault ⊢
    obtain rfl : (commentBody cs).length + 1 = n := by
      simp only [Extent.shift] at hn
      omega
    have hbody := commentBody_take cs rest hfault
    have hhead := head?_take_append (Nat.lt_of_lt_of_le Nat.two_pos (two_le_commentBody hfault))
      (commentBody_le cs) rest
    rw [List.take_succ_cons, List.cons_append, lexeme_slash_block, hbody]
    simp only [commentKind, hbody, hhead]
  · rw [lexeme_slash_of_head hline hblock] at hn ⊢
    obtain rfl : 0 = n := Nat.succ.inj hn
    exact lexeme_slash_of_head (head?_ne_of_ends hrest (by decide))
      (head?_ne_of_ends hrest (by decide))

/-- A number that begins with a point has a digit behind it. -/
theorem two_le_numberLength {d : Char} (hd : isDigit d) (ds : List Char) :
    2 ≤ numberLength ('.' :: d :: ds) := by
  have hspan : span isDecimalPart ('.' :: d :: ds) = 0 := rfl
  have hfraction : fraction ('.' :: d :: ds) = span isDecimalPart (d :: ds) + 1 := rfl
  have hpos := span_pos (show isDecimalPart d by simp [isDecimalPart, hd]) ds
  rw [numberLength_of_decimal rfl]
  unfold decimalLength
  dsimp only
  rw [hspan, List.drop_zero, hfraction]
  omega

/-- A number that begins with its point, by itself. -/
theorem lexeme_point_take (hrest : Ends rest) {d : Char} (hd : isDigit d) {cs : List Char}
    {n : Nat} (hn : numberLength ('.' :: d :: cs) = n + 1) :
    lexeme '.' ((d :: cs).take n ++ rest) = (.number, .whole (n + 1)) := by
  have htwo := two_le_numberLength hd cs
  have hle := numberLength_le ('.' :: d :: cs)
  have hwithin : n ≤ (d :: cs).length := by
    simp only [List.length_cons] at hle ⊢
    omega
  have hhead : ((d :: cs).take n ++ rest).head? = some d :=
    head?_take_append (by omega) hwithin rest
  have hdot : d ≠ '.' := by
    rintro rfl
    exact absurd hd (by decide)
  have hcons : '.' :: ((d :: cs).take n ++ rest) = ('.' :: d :: cs).take (n + 1) ++ rest := rfl
  rw [lexeme_dot, hhead, if_neg (by simp [hdot]), if_pos (by simpa using hd), hcons, ← hn,
    numberLength_append hrest.apart, numberLength_take (Nat.le_refl _)]

/-- An ellipsis, a number that begins with its point, or a dot, by itself. -/
theorem lexeme_dot_take (hrest : Ends rest) {cs : List Char} {n : Nat}
    (hn : (lexeme '.' cs).2.length = n + 1) :
    lexeme '.' (cs.take n ++ rest) = lexeme '.' cs := by
  rw [lexeme_dot] at hn
  rw [lexeme_dot cs]
  split at hn
  · rename_i hdots
    rw [if_pos hdots]
    obtain ⟨cs, rfl⟩ := List.head?_eq_some_iff.mp hdots.1
    obtain ⟨cs, rfl⟩ := List.head?_eq_some_iff.mp hdots.2
    obtain rfl : 2 = n := Nat.succ.inj hn
    rfl
  rename_i hdots
  rw [if_neg hdots]
  split at hn
  · rename_i hdigit
    rw [if_pos hdigit]
    obtain ⟨d, hd, hdigit'⟩ := (Option.any_eq_true ..).mp hdigit
    obtain ⟨cs, rfl⟩ := List.head?_eq_some_iff.mp hd
    have hnumber : numberLength ('.' :: d :: cs) = n + 1 := hn
    rw [lexeme_point_take hrest hdigit' hnumber, hnumber]
  · rename_i hdigit
    rw [if_neg hdigit]
    obtain rfl : 0 = n := Nat.succ.inj hn
    have hnone : ¬ rest.head?.any isDigit := by
      rw [Option.any_eq_true]
      rintro ⟨d, hd, hdigit⟩
      rw [hrest d hd] at hdigit
      exact absurd hdigit (by decide)
    rw [List.take_zero, List.nil_append, lexeme_dot, if_neg, if_neg hnone]
    exact fun hdots => head?_ne_of_ends hrest (by decide) hdots.1

/-- A word, by itself. -/
theorem lexeme_word_take (hrest : Ends rest) {c : Char} (hword : isWordStart c) {cs : List Char}
    {n : Nat} (hn : (lexeme c cs).2.length = n + 1) :
    lexeme c (cs.take n ++ rest) = lexeme c cs := by
  have hpart : ∀ c ∈ rest.head?, isWordPart c = false :=
    hrest.apart.head isWordPart (by decide)
  have hcons : c :: (cs.take n ++ rest) = (c :: cs).take (n + 1) ++ rest := rfl
  rw [lexeme_word hword] at hn
  have hspan : span isWordPart (c :: cs) = n + 1 := hn
  have hle := span_le isWordPart (c :: cs)
  have hsame := span_take_append hpart (c :: cs)
  rw [hspan] at hle hsame
  rw [lexeme_word hword, lexeme_word hword, hcons, hsame, hspan,
    List.take_append_of_le_length (by rw [List.length_take]; omega), List.take_take,
    Nat.min_self]

/-- A number, by itself. -/
theorem lexeme_digit_take (hrest : Ends rest) {c : Char} (hword : ¬ isWordStart c)
    (hdigit : isDigit c) {cs : List Char} {n : Nat} (hn : (lexeme c cs).2.length = n + 1) :
    lexeme c (cs.take n ++ rest) = lexeme c cs := by
  have hcons : c :: (cs.take n ++ rest) = (c :: cs).take (n + 1) ++ rest := rfl
  rw [lexeme_digit hword hdigit] at hn
  have hnumber : numberLength (c :: cs) = n + 1 := hn
  rw [lexeme_digit hword hdigit, lexeme_digit hword hdigit, hcons, ← hnumber,
    numberLength_append hrest.apart, numberLength_take (Nat.le_refl _)]

/-- A token without a fault is the same token when what stands behind it moves away and its line
ends there. -/
theorem lexeme_take (hrest : Ends rest) {c : Char} {cs : List Char} {n : Nat}
    (hfault : (lexeme c cs).2.fault = none) (hn : (lexeme c cs).2.length = n + 1) :
    lexeme c (cs.take n ++ rest) = lexeme c cs := by
  by_cases hword : isWordStart c
  · exact lexeme_word_take hrest hword hn
  by_cases hdigit : isDigit c
  · exact lexeme_digit_take hrest hword hdigit hn
  by_cases hstring : c = '"'
  · subst hstring
    rw [lexeme_quote] at hfault hn ⊢
    obtain rfl : (stringLiteral cs).length = n := by
      simp only [Extent.shift] at hn
      omega
    rw [lexeme_quote, stringLiteral_take hrest.apart cs hfault]
  by_cases hcharacter : c = '\''
  · subst hcharacter
    rw [lexeme_apostrophe] at hfault hn ⊢
    obtain rfl : (characterBody false cs).length = n := by
      simp only [Extent.shift] at hn
      omega
    rw [lexeme_apostrophe, characterBody_take false cs rest hfault]
  by_cases hslash : c = '/'
  · subst hslash
    exact lexeme_slash_take hrest hfault hn
  by_cases hdot : c = '.'
  · subst hdot
    exact lexeme_dot_take hrest hn
  by_cases hcolon : c = ':'
  · subst hcolon
    exact lexeme_pair_take hrest lexeme_colon (by decide) hn
  by_cases hminus : c = '-'
  · subst hminus
    exact lexeme_pair_take hrest lexeme_minus (by decide) hn
  have hsign := lexeme_sign (by simpa using hword) (by simpa using hdigit) hstring hcharacter hslash
    hdot hcolon hminus
  rw [hsign, hsign]

/-! ### Tokens one to a line -/

/-- A reading passes over what is left of a token. -/
theorem run_pass {s : State} {front : List Char} (h : s.pending = front.length) :
    ∃ s', s'.pending = 0 ∧ run s (front ++ rest) = run s' rest := by
  induction front generalizing s with
  | nil => exact ⟨s, h, rfl⟩
  | cons c front ih =>
    obtain ⟨s', hpending, hrun⟩ := @ih { s.beyond c with pending := front.length } rfl
    refine ⟨s', hpending, ?_⟩
    rw [List.cons_append, run_pending h, hrun]

/-- What a token is, wherever it stands and whatever stands before it. -/
def form (t : Token) : TokenKind × String := (t.kind, t.text)

/-- The texts of some tokens, each in a line of its own. -/
def lines (ts : List Token) : String := "\n".intercalate (ts.map (·.text))

theorem ends_nil : Ends [] := by simp [Ends]

theorem ends_line (cs : List Char) : Ends ('\n' :: cs) := by simp [Ends]

theorem toList_lines_single (t : Token) : (lines [t]).toList = t.text.toList := by
  simp [lines]

theorem toList_lines_cons (t u : Token) (ts : List Token) :
    (lines (t :: u :: ts)).toList = t.text.toList ++ '\n' :: (lines (u :: ts)).toList := by
  simp [lines]

/-- A token in a line of its own is taken again, and the reading goes on behind it. -/
theorem run_line (hrest : Ends rest) {s : State} (hs : s.pending = 0) {c : Char} {cs : List Char}
    (hc : isSpace c = false) (hfault : (lexeme c cs).2.fault = none) :
    ∃ t s', form t = ((lexeme c cs).1, String.ofList ((c :: cs).take (lexeme c cs).2.length)) ∧
      s'.pending = 0 ∧ run s ((c :: cs).take (lexeme c cs).2.length ++ rest) =
        ⟨t :: (run s' rest).tokens, (run s' rest).error⟩ := by
  obtain ⟨n, hn⟩ := exists_length_lexeme c cs
  have hsame := lexeme_take hrest hfault hn
  have hfault' : (lexeme c (cs.take n ++ rest)).2.fault = none := by rw [hsame, hfault]
  have hle := (lexeme_within c cs).2
  have hlength : (cs.take n).length = n := by
    rw [List.length_take]
    omega
  have hbegun : (s.begun c (cs.take n ++ rest)).pending = (cs.take n).length := by
    simp only [State.begun, hsame, hn, hlength, Nat.add_sub_cancel]
  obtain ⟨s', hs', hrun⟩ := @run_pass rest _ _ hbegun
  refine ⟨s.token c (cs.take n ++ rest), s', ?_, hs', ?_⟩
  · have htake : (c :: (cs.take n ++ rest)).take (n + 1) = (c :: cs).take (n + 1) := by
      rw [List.take_succ_cons, List.take_succ_cons, List.take_append_of_le_length (by omega),
        List.take_take, Nat.min_self]
    simp only [form, State.token, hsame, hn, htake]
  · rw [hn, List.take_succ_cons, List.cons_append, run_token hs hc hfault', hrun]

/-- The tokens that cut a text, one to a line, read as the same tokens, from any place on. -/
theorem Cuts.run_lines {start : Nat} {cs : List Char} {r : Lexed} (h : Cuts start cs r) (s : State)
    (hs : s.pending = 0) :
    (run s (lines r.tokens).toList).error = none ∧
      (run s (lines r.tokens).toList).tokens.map form = r.tokens.map form := by
  induction h generalizing s with
  | blank => exact ⟨rfl, rfl⟩
  | fault => exact ⟨rfl, rfl⟩
  | @token start gap c cs t r hgap hc hfault hkind htext hblank hstart more ih =>
    have hform : form t =
        ((lexeme c cs).1, String.ofList ((c :: cs).take (lexeme c cs).2.length)) := by
      rw [form, hkind, htext]
    have hlist : t.text.toList = (c :: cs).take (lexeme c cs).2.length := by
      rw [htext, String.toList_ofList]
    obtain ⟨ts, error⟩ := r
    cases ts with
    | nil =>
      obtain ⟨u, s', hu, hs', hrun⟩ := run_line ends_nil hs hc hfault
      rw [List.append_nil] at hrun
      rw [toList_lines_single, hlist, hrun]
      exact ⟨rfl, by simp [hu, hform, run]⟩
    | cons v ts =>
      obtain ⟨u, s', hu, hs', hrun⟩ := run_line (ends_line (lines (v :: ts)).toList) hs hc hfault
      obtain ⟨herror, hforms⟩ := ih { s'.beyond '\n' with gap := '\n' :: s'.gap } hs'
      rw [run_space hs' (by decide)] at hrun
      rw [toList_lines_cons, hlist, hrun]
      refine ⟨herror, ?_⟩
      rw [List.map_cons, List.map_cons, hforms, hu, hform]

end Lexer

/-- The tokens of a text do not depend on what stood around them: their texts, one to a line, read
without an error as the same tokens in the same order. -/
theorem lex_lines (text : String) :
    (lex (Lexer.lines (lex text).tokens)).error = none ∧
      (lex (Lexer.lines (lex text).tokens)).tokens.map Lexer.form =
        (lex text).tokens.map Lexer.form :=
  (Lexer.cuts_lex text).run_lines ⟨0, 0, ⟨0, 0⟩, []⟩ rfl

end JavaModel
