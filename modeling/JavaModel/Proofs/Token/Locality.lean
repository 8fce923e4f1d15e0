import JavaModel.Token.Lexer

/-! What the measure of a token depends on. A well-formed token other than a comment is measured
alike whether the text ends behind its surroundings or goes on with white space, a bracket or a sign
between parts, and no measure reaches beyond the text. -/

namespace JavaModel.Lexer

/-- The text ends here or goes on with white space. -/
def Breaks (rest : List Char) : Prop := ∀ c ∈ rest.head?, isSpace c

/-- White space, and the signs that belong to no token begun before them. -/
def apartChars : List Char := [' ', '\t', '\r', '\n', '\x0c', '(', ')', '[', ']', ',', ';']

/-- The text ends here or goes on with white space or with a sign that stands apart. -/
def Apart (rest : List Char) : Prop := ∀ c ∈ rest.head?, c ∈ apartChars

variable {rest : List Char}

theorem Breaks.apart (h : Breaks rest) : Apart rest := by
  intro c hc
  have hcases : c = ' ' ∨ c = '\t' ∨ c = '\r' ∨ c = '\n' ∨ c = '\x0c' := by
    simpa [isSpace, or_assoc] using h c hc
  rcases hcases with rfl | rfl | rfl | rfl | rfl <;> decide

/-- A property that no character has that stands apart does not hold where a text goes on apart. -/
theorem Apart.head (h : Apart rest) (p : Char → Bool) (hp : apartChars.all fun c => !p c) :
    ∀ c ∈ rest.head?, p c = false :=
  fun c hc => by simpa using List.all_eq_true.mp hp c (h c hc)

theorem span_append {p : Char → Bool} (h : ∀ c ∈ rest.head?, p c = false) (cs : List Char) :
    span p (cs ++ rest) = span p cs := by
  induction cs with
  | nil =>
    cases rest with
    | nil => rfl
    | cons d rest => simp [span, h d rfl]
  | cons c cs ih =>
    simp only [span, List.cons_append, List.takeWhile_cons] at ih ⊢
    split
    · simp [ih]
    · rfl

theorem span_le (p : Char → Bool) (cs : List Char) : span p cs ≤ cs.length :=
  (List.takeWhile_prefix p).length_le

theorem span_pos {p : Char → Bool} {c : Char} (h : p c) (cs : List Char) :
    0 < span p (c :: cs) := by
  simp [span, h]

/-! ### Numbers -/

theorem isDigit_apart (h : Apart rest) : ∀ c ∈ rest.head?, isDigit c = false :=
  h.head isDigit (by decide)

theorem isDecimalPart_apart (h : Apart rest) : ∀ c ∈ rest.head?, isDecimalPart c = false :=
  h.head isDecimalPart (by decide)

theorem numberSuffix_append (h : Apart rest) (cs : List Char) :
    numberSuffix (cs ++ rest) = numberSuffix cs := by
  cases cs with
  | cons c cs => rfl
  | nil =>
    cases rest with
    | nil => rfl
    | cons d rest =>
      have hd := h.head isNumberSuffix (by decide) d rfl
      simp [numberSuffix, hd]

theorem exponent_append (h : Apart rest) (cs : List Char) :
    exponent (cs ++ rest) = exponent cs := by
  match cs with
  | [] =>
    cases rest with
    | nil => rfl
    | cons d rest =>
      have hd := h.head (fun c => c = 'e' || c = 'E') (by decide) d rfl
      simp only [Bool.or_eq_false_iff, decide_eq_false_iff_not] at hd
      simp [exponent, hd]
  | [c] =>
    cases rest with
    | nil => rfl
    | cons d rest =>
      have hd := h.head (fun c => c = '+' || c = '-') (by decide) d rfl
      have hdigit := isDigit_apart h d rfl
      simp only [Bool.or_eq_false_iff, decide_eq_false_iff_not] at hd
      simp [exponent, hd, span, hdigit]
  | c :: s :: ds =>
    have htail := span_append (isDigit_apart h) ds
    have hall := span_append (isDigit_apart h) (s :: ds)
    simp only [List.cons_append] at hall ⊢
    simp only [exponent, htail, hall]

theorem fraction_append (h : Apart rest) (cs : List Char) :
    fraction (cs ++ rest) = fraction cs := by
  cases cs with
  | nil =>
    cases rest with
    | nil => rfl
    | cons d rest =>
      have hd := h.head (fun c => c = '.') (by decide) d rfl
      simp only [decide_eq_false_iff_not] at hd
      unfold fraction
      split
      · rename_i heq
        exact absurd (List.cons.inj heq).1 hd
      · rfl
  | cons c cs =>
    by_cases hc : c = '.'
    · subst hc
      simp [fraction, span_append (isDecimalPart_apart h)]
    · unfold fraction
      simp [hc]

theorem basedDigits_append (h : Apart rest) (cs : List Char) :
    basedDigits (cs ++ rest) = basedDigits cs := by
  have hhex : ∀ c ∈ rest.head?, isHexPart c = false := h.head isHexPart (by decide)
  have hbinary : ∀ c ∈ rest.head?, isBinaryPart c = false := h.head isBinaryPart (by decide)
  match cs with
  | [] =>
    cases rest with
    | nil => rfl
    | cons d rest =>
      have hd := h.head (fun c => c = '0') (by decide) d rfl
      simp only [decide_eq_false_iff_not] at hd
      unfold basedDigits
      split
      · rename_i heq
        exact absurd (List.cons.inj heq).1 hd
      · rfl
  | [c] =>
    cases rest with
    | nil => rfl
    | cons d rest =>
      have hd := h.head (fun c => c = 'x' || c = 'X' || c = 'b' || c = 'B') (by decide) d rfl
      simp only [Bool.or_eq_false_iff, decide_eq_false_iff_not] at hd
      by_cases hc : c = '0'
      · subst hc
        simp [basedDigits, hd]
      · simp [basedDigits, hc]
  | c :: x :: ds =>
    by_cases hc : c = '0'
    · subst hc
      simp only [List.cons_append, basedDigits, span_append hhex, span_append hbinary]
    · simp [basedDigits, hc]

theorem basedDigits_le (cs : List Char) : basedDigits cs = 0 ∨ basedDigits cs + 2 ≤ cs.length := by
  unfold basedDigits
  split
  · rename_i x ds
    have hhex := span_le isHexPart ds
    have hbinary := span_le isBinaryPart ds
    simp only [List.length_cons]
    split
    · omega
    · split
      · omega
      · exact .inl rfl
  · exact .inl rfl

theorem numberSuffix_le (cs : List Char) : numberSuffix cs ≤ cs.length := by
  unfold numberSuffix
  split
  · split <;> simp
  · exact Nat.zero_le _

theorem exponent_le (cs : List Char) : exponent cs ≤ cs.length := by
  unfold exponent
  split
  · split
    · split
      · exact Nat.zero_le _
      · rename_i s ds
        have hds := span_le isDigit ds
        have hall := span_le isDigit (s :: ds)
        simp only [List.length_cons] at hall ⊢
        split
        · split <;> omega
        · split <;> omega
    · exact Nat.zero_le _
  · exact Nat.zero_le _

theorem fraction_le (cs : List Char) : fraction cs ≤ cs.length := by
  unfold fraction
  split
  · rename_i cs
    have := span_le isDecimalPart cs
    simp only [List.length_cons]
    omega
  · exact Nat.zero_le _

/-- The parts of a decimal number, one behind the other, stay within the text. -/
theorem decimalLength_le (cs : List Char) : decimalLength cs ≤ cs.length := by
  unfold decimalLength
  dsimp only
  have hdigits := span_le isDecimalPart cs
  generalize span isDecimalPart cs = digits at hdigits ⊢
  have hfraction := fraction_le (cs.drop digits)
  rw [List.length_drop] at hfraction
  generalize fraction (cs.drop digits) = point at hfraction ⊢
  have hexponent := exponent_le (cs.drop (digits + point))
  rw [List.length_drop] at hexponent
  generalize exponent (cs.drop (digits + point)) = power at hexponent ⊢
  have hsuffix := numberSuffix_le (cs.drop (digits + point + power))
  rw [List.length_drop] at hsuffix
  omega

theorem decimalLength_append (h : Apart rest) (cs : List Char) :
    decimalLength (cs ++ rest) = decimalLength cs := by
  unfold decimalLength
  dsimp only
  rw [span_append (isDecimalPart_apart h)]
  have hdigits := span_le isDecimalPart cs
  generalize span isDecimalPart cs = digits at hdigits ⊢
  rw [List.drop_append_of_le_length hdigits, fraction_append h]
  have hfraction := fraction_le (cs.drop digits)
  rw [List.length_drop] at hfraction
  generalize fraction (cs.drop digits) = point at hfraction ⊢
  rw [List.drop_append_of_le_length (by omega), exponent_append h]
  have hexponent := exponent_le (cs.drop (digits + point))
  rw [List.length_drop] at hexponent
  generalize exponent (cs.drop (digits + point)) = power at hexponent ⊢
  rw [List.drop_append_of_le_length (by omega), numberSuffix_append h]

theorem numberLength_of_based {cs : List Char} {n : Nat} (h : basedDigits cs = n + 1) :
    numberLength cs = n + 3 + numberSuffix (cs.drop (n + 3)) := by
  simp only [numberLength, h]

theorem numberLength_of_decimal {cs : List Char} (h : basedDigits cs = 0) :
    numberLength cs = decimalLength cs := by
  simp only [numberLength, h]

theorem numberLength_le (cs : List Char) : numberLength cs ≤ cs.length := by
  have hbased := basedDigits_le cs
  cases hn : basedDigits cs with
  | zero =>
    rw [numberLength_of_decimal hn]
    exact decimalLength_le cs
  | succ n =>
    have hsuffix := numberSuffix_le (cs.drop (n + 3))
    rw [List.length_drop] at hsuffix
    rw [numberLength_of_based hn]
    omega

theorem numberLength_append (h : Apart rest) (cs : List Char) :
    numberLength (cs ++ rest) = numberLength cs := by
  have hbased := basedDigits_le cs
  have hsame := basedDigits_append h cs
  cases hn : basedDigits cs with
  | zero =>
    rw [numberLength_of_decimal hn, numberLength_of_decimal (hsame.trans hn),
      decimalLength_append h]
  | succ n =>
    rw [numberLength_of_based hn, numberLength_of_based (hsame.trans hn),
      List.drop_append_of_le_length (by omega), numberSuffix_append h]

/-- A number takes a character at least. -/
theorem numberLength_pos {cs : List Char}
    (h : (∃ c ds, cs = c :: ds ∧ isDigit c) ∨ ∃ ds, cs = '.' :: ds) : 0 < numberLength cs := by
  unfold numberLength
  split
  · unfold decimalLength
    dsimp only
    rcases h with ⟨c, ds, rfl, hc⟩ | ⟨ds, rfl⟩
    · have hspan := span_pos (show isDecimalPart c by simp [isDecimalPart, hc]) ds
      omega
    · have hspan : span isDecimalPart ('.' :: ds) = 0 := by
        simp [span, show isDecimalPart '.' = false by decide]
      rw [hspan]
      have hfraction : fraction (('.' :: ds).drop 0) = span isDecimalPart ds + 1 := rfl
      rw [hfraction]
      omega
  · omega

/-! ### Literals and comments -/

/-- The extent of a well-formed token is the same in a longer text and stays within the shorter
one. -/
def Stays (e e' : Extent) (cs : List Char) : Prop := e.fault = none → e' = e ∧ e.length ≤ cs.length

theorem Stays.shift {e e' : Extent} {cs : List Char} (h : Stays e e' cs) (before : List Char) :
    Stays (e.shift before.length) (e'.shift before.length) (before ++ cs) := by
  intro hfault
  obtain ⟨rfl, hle⟩ := h hfault
  refine ⟨rfl, ?_⟩
  simp only [Extent.shift, List.length_append]
  omega

/-- Behind anything but a backslash a string goes on character by character. -/
theorem stringBody_cons {c : Char} (hc : c ≠ '\\') (cs : List Char) :
    stringBody (c :: cs) =
      if c = '"' then .whole 1
      else if isLineEnd c then .broken 0 .unterminatedString
      else (stringBody cs).shift 1 := by
  cases cs <;> simp [stringBody, hc]

theorem characterBody_cons {c : Char} (hc : c ≠ '\\') (seen : Bool) (cs : List Char) :
    characterBody seen (c :: cs) =
      if c = '\'' && seen then .whole 1
      else if isLineEnd c then .broken 0 .unterminatedCharacter
      else (characterBody true cs).shift 1 := by
  cases cs <;> simp [characterBody, hc]

/-- The side conditions of the last cases of `stringBody` say that no backslash stands in front. -/
theorem ne_backslash {c : Char} {cs : List Char} (hend : c = '\\' → cs = [] → False)
    (hmore : ∀ (e : Char) (more : List Char), c = '\\' → cs = e :: more → False) : c ≠ '\\' := by
  intro hc
  cases cs with
  | nil => exact hend hc rfl
  | cons e more => exact hmore e more hc rfl

theorem stringBody_stays (cs rest : List Char) :
    Stays (stringBody cs) (stringBody (cs ++ rest)) cs := by
  induction cs using stringBody.induct with
  | case1 | case2 => intro h; cases h
  | case3 e cs he ih =>
    simp only [List.cons_append, stringBody, he, if_true]
    exact ih.shift ['\\', e]
  | case4 e cs he hline => intro h; simp [stringBody, he, hline, Extent.broken] at h
  | case5 e cs he hline => intro h; simp [stringBody, he, hline, Extent.broken] at h
  | case6 cs _ _ =>
    rw [List.cons_append, stringBody_cons (by decide), stringBody_cons (by decide), if_pos rfl]
    exact fun _ => ⟨rfl, by simp [Extent.whole]⟩
  | case7 c cs hend hmore hquote hline =>
    rw [stringBody_cons (ne_backslash hend hmore), if_neg hquote, if_pos hline]
    intro h
    cases h
  | case8 c cs hend hmore hquote hline ih =>
    have hc := ne_backslash hend hmore
    rw [List.cons_append, stringBody_cons hc, stringBody_cons hc, if_neg hquote, if_neg hline]
    rw [if_neg hquote, if_neg hline]
    exact ih.shift [c]

theorem characterBody_stays (seen : Bool) (cs rest : List Char) :
    Stays (characterBody seen cs) (characterBody seen (cs ++ rest)) cs := by
  induction seen, cs using characterBody.induct with
  | case1 | case2 => intro h; cases h
  | case3 seen e cs he ih =>
    simp only [List.cons_append, characterBody, he, if_true]
    exact ih.shift ['\\', e]
  | case4 seen e cs he => intro h; simp [characterBody, he, Extent.broken] at h
  | case5 seen c cs hend hmore hquote =>
    have hc := ne_backslash hend hmore
    rw [List.cons_append, characterBody_cons hc, characterBody_cons hc, if_pos hquote,
      if_pos hquote]
    exact fun _ => ⟨rfl, by simp [Extent.whole]⟩
  | case6 seen c cs hend hmore hquote hline =>
    rw [characterBody_cons (ne_backslash hend hmore), if_neg hquote, if_pos hline]
    intro h
    cases h
  | case7 seen c cs hend hmore hquote hline ih =>
    have hc := ne_backslash hend hmore
    rw [List.cons_append, characterBody_cons hc, characterBody_cons hc, if_neg hquote,
      if_neg hline, if_neg hquote, if_neg hline]
    exact ih.shift [c]

/-- A text block goes on behind a character that is no backslash and does not close it. -/
theorem textBlockBody_cons {c : Char} {cs : List Char} (hc : c ≠ '\\')
    (hquotes : ∀ tail, c = '"' → cs = '"' :: '"' :: tail → False) :
    textBlockBody (c :: cs) = (textBlockBody cs).shift 1 := by
  rw [textBlockBody.eq_def (c :: cs)]
  split
  · rename_i heq; cases heq
  · rename_i heq; exact absurd (List.cons.inj heq).1 hc
  · rename_i heq; exact absurd (List.cons.inj heq).1 hc
  · rename_i tail heq
    exact (hquotes tail (List.cons.inj heq).1 (List.cons.inj heq).2).elim
  · rename_i heq
    obtain ⟨rfl, rfl⟩ := List.cons.inj heq
    rfl

theorem textBlockBody_stays (h : Apart rest) (cs : List Char) :
    Stays (textBlockBody cs) (textBlockBody (cs ++ rest)) cs := by
  have hquote : ∀ tail, rest ≠ '"' :: tail := by
    rintro tail rfl
    have := h.head (fun c => c = '"') (by decide) '"' rfl
    simp at this
  induction cs using textBlockBody.induct with
  | case1 | case2 => intro h; cases h
  | case3 e cs ih =>
    simp only [List.cons_append, textBlockBody]
    exact ih.shift ['\\', e]
  | case4 tail => exact fun _ => ⟨rfl, by simp [textBlockBody, Extent.whole]⟩
  | case5 c cs hend hmore hquotes ih =>
    have hc := ne_backslash hend hmore
    have hquotes' : ∀ tail, c = '"' → cs ++ rest = '"' :: '"' :: tail → False := by
      intro tail hc' heq
      match cs with
      | [] => exact hquote _ heq
      | [d] => exact hquote _ (List.cons.inj heq).2
      | d :: e :: cs =>
        obtain ⟨hd, heq⟩ := List.cons.inj heq
        exact hquotes cs hc' (by rw [hd, (List.cons.inj heq).1])
    rw [List.cons_append, textBlockBody_cons hc hquotes, textBlockBody_cons hc hquotes']
    exact ih.shift [c]

/-! ### Tokens -/

/-- Three quotes with nothing but blanks behind them to the end of the text. They open a text block
only if a line end follows. -/
def QuotesAtEnd (c : Char) (cs : List Char) : Prop :=
  c = '"' ∧ ∃ blanks, cs = '"' :: '"' :: blanks ∧
    blanks.dropWhile (fun c => c = ' ' || c = '\t' || c = '\x0c') = []

theorem opensTextBlock_append {cs : List Char}
    (h : cs.dropWhile (fun c => c = ' ' || c = '\t' || c = '\x0c') ≠ []) (rest : List Char) :
    opensTextBlock (cs ++ rest) = opensTextBlock cs := by
  unfold opensTextBlock
  rw [List.dropWhile_append]
  have hne : (cs.dropWhile fun c => c = ' ' || c = '\t' || c = '\x0c').isEmpty = false := by
    simpa [List.isEmpty_iff] using h
  rw [hne]
  cases hdrop : cs.dropWhile fun c => c = ' ' || c = '\t' || c = '\x0c' with
  | nil => exact absurd hdrop h
  | cons c more => rfl

theorem stringLiteral_stays (h : Apart rest) {cs : List Char} (hquotes : ¬ QuotesAtEnd '"' cs) :
    Stays (stringLiteral cs) (stringLiteral (cs ++ rest)) cs := by
  have hquote : ∀ tail, rest ≠ '"' :: tail := by
    rintro tail rfl
    have := h.head (fun c => c = '"') (by decide) '"' rfl
    simp at this
  by_cases hthree : ∃ more, cs = '"' :: '"' :: more
  · obtain ⟨more, rfl⟩ := hthree
    have hblanks : more.dropWhile (fun c => c = ' ' || c = '\t' || c = '\x0c') ≠ [] :=
      fun hnil => hquotes ⟨rfl, more, rfl, hnil⟩
    simp only [List.cons_append, stringLiteral, opensTextBlock_append hblanks]
    split
    · exact (textBlockBody_stays h more).shift ['"', '"']
    · exact stringBody_stays ('"' :: '"' :: more) rest
  · have hthree' : ¬ ∃ more, cs ++ rest = '"' :: '"' :: more := by
      rintro ⟨more, heq⟩
      match cs with
      | [] => exact hquote _ heq
      | [c] => exact hquote _ (List.cons.inj heq).2
      | c :: d :: cs =>
        obtain ⟨hc, heq⟩ := List.cons.inj heq
        exact hthree ⟨cs, by rw [hc, (List.cons.inj heq).1]⟩
    have hplain : ∀ cs, (¬ ∃ more, cs = '"' :: '"' :: more) → stringLiteral cs = stringBody cs := by
      intro cs hcs
      unfold stringLiteral
      split
      · exact absurd ⟨_, rfl⟩ hcs
      · rfl
    rw [hplain _ hthree, hplain _ hthree']
    exact stringBody_stays cs rest

/-- A character that does not stand apart stands in front of a text that goes on just when it stands
in front of the text. -/
theorem head?_append_iff (h : Apart rest) {d : Char} (hd : d ∉ apartChars) (cs : List Char) :
    (cs ++ rest).head? = some d ↔ cs.head? = some d := by
  cases cs with
  | cons c cs => exact Iff.rfl
  | nil => exact iff_of_false (fun heq => hd (h d heq)) (by simp)

theorem length_of_head {cs : List Char} {d : Char} (h : cs.head? = some d) : 0 < cs.length := by
  cases cs with
  | nil => cases h
  | cons => exact Nat.succ_pos _

section Shapes

attribute [local simp] lexeme isWordStart isLetter isDigit

theorem lexeme_quote (cs : List Char) :
    lexeme '"' cs = (.string, (stringLiteral cs).shift 1) := rfl

theorem lexeme_apostrophe (cs : List Char) :
    lexeme '\'' cs = (.character, (characterBody false cs).shift 1) := rfl

theorem lexeme_slash {cs : List Char} (h : (lexeme '/' cs).1.isTrivia = false) :
    lexeme '/' cs = (.operator, .whole 1) ∧ cs.head? ≠ some '/' ∧ cs.head? ≠ some '*' := by
  cases cs with
  | nil => exact ⟨by decide, by simp, by simp⟩
  | cons d more =>
    by_cases hline : d = '/'
    · subst hline
      simp [TokenKind.isTrivia] at h
    by_cases hblock : d = '*'
    · subst hblock
      simp [commentKind] at h
      split at h <;> simp [TokenKind.isTrivia] at h
    · refine ⟨?_, by simpa using hline, by simpa using hblock⟩
      simp [hline, hblock, sign?]

theorem lexeme_slash_of_head {cs : List Char} (hline : cs.head? ≠ some '/')
    (hblock : cs.head? ≠ some '*') : lexeme '/' cs = (.operator, .whole 1) := by
  cases cs with
  | nil => decide
  | cons d more =>
    simp only [List.head?_cons, ne_eq, Option.some.injEq] at hline hblock
    simp [hline, hblock, sign?]

theorem lexeme_dot (cs : List Char) :
    lexeme '.' cs =
      if cs.head? = some '.' ∧ cs.tail.head? = some '.' then (.ellipsis, .whole 3)
      else if cs.head?.any isDigit then (.number, .whole (numberLength ('.' :: cs)))
      else (.dot, .whole 1) := by
  match cs with
  | [] => decide
  | [d] => simp
  | d :: e :: more =>
    by_cases hdots : d = '.' ∧ e = '.'
    · obtain ⟨rfl, rfl⟩ := hdots
      simp
    · rw [if_neg (by simpa using hdots)]
      by_cases hd : isDigit d
      · have hne : d ≠ '.' := by
          rintro rfl
          exact absurd hd (by decide)
        simp [hne] at hd ⊢
      · by_cases hdot : d = '.'
        · subst hdot
          have he : e ≠ '.' := fun he => hdots ⟨rfl, he⟩
          simp [he]
        · simp [hdot] at hd ⊢

theorem lexeme_colon (cs : List Char) :
    lexeme ':' cs =
      if cs.head? = some ':' then (.doubleColon, .whole 2) else (.colon, .whole 1) := by
  cases cs with
  | nil => decide
  | cons d more =>
    by_cases hd : d = ':' <;> simp [sign?, hd]

theorem lexeme_minus (cs : List Char) :
    lexeme '-' cs =
      if cs.head? = some '>' then (.arrow, .whole 2) else (.minus, .whole 1) := by
  cases cs with
  | nil => decide
  | cons d more =>
    by_cases hd : d = '>' <;> simp [sign?, hd]

end Shapes

/-- The other signs do not depend on what follows them. -/
theorem lexeme_sign {c : Char} (hword : isWordStart c = false) (hdigit : isDigit c = false)
    (hstring : c ≠ '"') (hcharacter : c ≠ '\'') (hslash : c ≠ '/') (hdot : c ≠ '.')
    (hcolon : c ≠ ':') (hminus : c ≠ '-') (cs : List Char) :
    lexeme c cs = match sign? c with
      | some kind => (kind, .whole 1)
      | none => (.operator, .broken 1 .invalidCharacter) := by
  cases hsign : sign? c <;>
    simp [lexeme, hword, hdigit, hstring, hcharacter, hslash, hdot, hcolon, hminus, hsign]

/-- A token without a fault that is no comment ends where the text breaks, or before. -/
theorem lexeme_stays (h : Apart rest) {c : Char} {cs : List Char}
    (htrivia : (lexeme c cs).1.isTrivia = false) (hquotes : ¬ QuotesAtEnd c cs)
    (hfault : (lexeme c cs).2.fault = none) :
    lexeme c (cs ++ rest) = lexeme c cs ∧
      0 < (lexeme c cs).2.length ∧ (lexeme c cs).2.length ≤ cs.length + 1 := by
  by_cases hword : isWordStart c
  · have hpart : ∀ c ∈ rest.head?, isWordPart c = false := h.head isWordPart (by decide)
    have hspan : span isWordPart (c :: (cs ++ rest)) = span isWordPart (c :: cs) :=
      span_append hpart (c :: cs)
    have hle : span isWordPart (c :: cs) ≤ (c :: cs).length := span_le isWordPart (c :: cs)
    have hpos := span_pos (show isWordPart c by simp [isWordPart, hword]) cs
    have htake : (c :: (cs ++ rest)).take (span isWordPart (c :: cs)) =
        (c :: cs).take (span isWordPart (c :: cs)) := by
      rw [← List.cons_append, List.take_append_of_le_length hle]
    simp only [lexeme, hword, if_true, hspan, htake, Extent.whole]
    exact ⟨trivial, hpos, hle⟩
  by_cases hdigit : isDigit c
  · have happend : numberLength (c :: (cs ++ rest)) = numberLength (c :: cs) :=
      numberLength_append h (c :: cs)
    have hle := numberLength_le (c :: cs)
    have hpos := numberLength_pos (.inl ⟨c, cs, rfl, hdigit⟩)
    simp only [lexeme, hword, hdigit, if_true, happend, Extent.whole]
    exact ⟨rfl, hpos, hle⟩
  by_cases hstring : c = '"'
  · subst hstring
    rw [lexeme_quote] at hfault ⊢
    obtain ⟨heq, hle⟩ := stringLiteral_stays h hquotes hfault
    rw [lexeme_quote, heq]
    simp only [Extent.shift]
    exact ⟨trivial, by omega, by omega⟩
  by_cases hcharacter : c = '\''
  · subst hcharacter
    rw [lexeme_apostrophe] at hfault ⊢
    obtain ⟨heq, hle⟩ := characterBody_stays false cs rest hfault
    rw [lexeme_apostrophe, heq]
    simp only [Extent.shift]
    exact ⟨trivial, by omega, by omega⟩
  by_cases hslash : c = '/'
  · subst hslash
    obtain ⟨heq, hline, hblock⟩ := lexeme_slash htrivia
    rw [heq, lexeme_slash_of_head (mt (head?_append_iff h (by decide) cs).mp hline)
      (mt (head?_append_iff h (by decide) cs).mp hblock)]
    simp [Extent.whole]
  by_cases hdot : c = '.'
  · subst hdot
    simp only [lexeme_dot]
    have hnumber : numberLength ('.' :: (cs ++ rest)) = numberLength ('.' :: cs) :=
      numberLength_append h ('.' :: cs)
    have hdigits : (cs ++ rest).head?.any isDigit = cs.head?.any isDigit := by
      cases cs with
      | cons => rfl
      | nil =>
        cases hhead : rest.head? with
        | none => simp [hhead]
        | some d => simp [hhead, isDigit_apart h d hhead]
    have hdots : ((cs ++ rest).head? = some '.' ∧ (cs ++ rest).tail.head? = some '.') ↔
        (cs.head? = some '.' ∧ cs.tail.head? = some '.') := by
      cases cs with
      | cons d more =>
        exact and_congr_right fun _ => head?_append_iff h (show '.' ∉ apartChars by decide) more
      | nil =>
        refine iff_of_false (fun hall => ?_) (by simp)
        have := (head?_append_iff h (show '.' ∉ apartChars by decide) []).mp hall.1
        cases this
    simp only [hnumber, hdigits, hdots]
    refine ⟨trivial, ?_⟩
    split
    · rename_i hhead
      have := length_of_head hhead.2
      have := List.length_tail (l := cs)
      simp only [Extent.whole]
      omega
    · split
      · exact ⟨numberLength_pos (.inr ⟨cs, rfl⟩), numberLength_le ('.' :: cs)⟩
      · simp [Extent.whole]
  by_cases hcolon : c = ':'
  · subst hcolon
    simp only [lexeme_colon, head?_append_iff h (show ':' ∉ apartChars by decide) cs]
    refine ⟨trivial, ?_⟩
    split
    · rename_i hhead
      have := length_of_head hhead
      simp only [Extent.whole]
      omega
    · simp [Extent.whole]
  by_cases hminus : c = '-'
  · subst hminus
    simp only [lexeme_minus, head?_append_iff h (show '>' ∉ apartChars by decide) cs]
    refine ⟨trivial, ?_⟩
    split
    · rename_i hhead
      have := length_of_head hhead
      simp only [Extent.whole]
      omega
    · simp [Extent.whole]
  rw [lexeme_sign (by simpa using hword) (by simpa using hdigit) hstring hcharacter hslash hdot
    hcolon hminus] at hfault ⊢
  rw [lexeme_sign (by simpa using hword) (by simpa using hdigit) hstring hcharacter hslash hdot
    hcolon hminus]
  refine ⟨rfl, ?_⟩
  cases hsign : sign? c with
  | some kind => simp [Extent.whole]
  | none => simp [hsign, Extent.broken] at hfault

end JavaModel.Lexer
