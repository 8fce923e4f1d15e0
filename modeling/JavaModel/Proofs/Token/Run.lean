import JavaModel.Proofs.Token.Locality

/-! Readings that take tokens to the end of a text. A plain reading, which meets no fault and takes
no comment, goes on behind its text as if it began there, takes the same tokens at every place, and
its tokens tile the text. -/

namespace JavaModel.Lexer

variable {rest : List Char}

/-! ### Steps of a reading -/

/-- The state one character further on, nothing else being changed. -/
def State.beyond (s : State) (c : Char) : State :=
  { s with offset := s.offset + c.utf8Size, position := s.position.after c }

/-- The token that a state takes in front of a text. -/
def State.token (s : State) (c : Char) (cs : List Char) : Token :=
  { kind := (lexeme c cs).1, text := String.ofList ((c :: cs).take (lexeme c cs).2.length),
    gap := String.ofList s.gap.reverse, start := s.offset, position := s.position }

/-- The state behind a token that begins here. -/
def State.begun (s : State) (c : Char) (cs : List Char) : State :=
  { s.beyond c with pending := (lexeme c cs).2.length - 1, gap := [] }

theorem run_pending {s : State} {n : Nat} (h : s.pending = n + 1) (c : Char) (cs : List Char) :
    run s (c :: cs) = run { s.beyond c with pending := n } cs := by
  simp [run, h, State.beyond]

theorem run_space {s : State} (h : s.pending = 0) {c : Char} (hc : isSpace c) (cs : List Char) :
    run s (c :: cs) = run { s.beyond c with gap := c :: s.gap } cs := by
  simp [run, h, hc, State.beyond]

theorem run_token {s : State} (h : s.pending = 0) {c : Char} (hc : isSpace c = false)
    {cs : List Char} (hfault : (lexeme c cs).2.fault = none) :
    run s (c :: cs) =
      ⟨s.token c cs :: (run (s.begun c cs) cs).tokens, (run (s.begun c cs) cs).error⟩ := by
  simp [run, h, hc, hfault, State.token, State.begun, State.beyond]

theorem run_fault {s : State} (h : s.pending = 0) {c : Char} (hc : isSpace c = false)
    {cs : List Char} (hfault : (lexeme c cs).2.fault ≠ none) : (run s (c :: cs)).error ≠ none := by
  cases hsome : (lexeme c cs).2.fault with
  | none => exact absurd hsome hfault
  | some fault => simp [run, h, hc, hsome]

/-- The state behind a text that has been read. -/
def passed (s : State) : List Char → State
  | [] => s
  | c :: cs =>
    match s.pending with
    | n + 1 => passed { s.beyond c with pending := n } cs
    | 0 =>
      if isSpace c then passed { s.beyond c with gap := c :: s.gap } cs
      else passed (s.begun c cs) cs

theorem passed_pending {s : State} {n : Nat} (h : s.pending = n + 1) (c : Char) (cs : List Char) :
    passed s (c :: cs) = passed { s.beyond c with pending := n } cs := by
  simp [passed, h]

theorem passed_space {s : State} (h : s.pending = 0) {c : Char} (hc : isSpace c)
    (cs : List Char) : passed s (c :: cs) = passed { s.beyond c with gap := c :: s.gap } cs := by
  simp [passed, h, hc]

theorem passed_token {s : State} (h : s.pending = 0) {c : Char} (hc : isSpace c = false)
    (cs : List Char) : passed s (c :: cs) = passed (s.begun c cs) cs := by
  simp [passed, h, hc]

/-! ### Plain readings -/

/-- A reading that ends with the text, meets no fault and takes no comment. -/
inductive Plain : State → List Char → Prop where
  | done {s : State} (h : s.pending = 0) : Plain s []
  | pending {s : State} {n : Nat} {c : Char} {cs : List Char} (h : s.pending = n + 1)
      (more : Plain { s.beyond c with pending := n } cs) : Plain s (c :: cs)
  | space {s : State} {c : Char} {cs : List Char} (h : s.pending = 0) (hc : isSpace c)
      (more : Plain { s.beyond c with gap := c :: s.gap } cs) : Plain s (c :: cs)
  | token {s : State} {c : Char} {cs : List Char} (h : s.pending = 0) (hc : isSpace c = false)
      (hfault : (lexeme c cs).2.fault = none) (htrivia : (lexeme c cs).1.isTrivia = false)
      (hquotes : ¬ QuotesAtEnd c cs) (more : Plain (s.begun c cs) cs) : Plain s (c :: cs)

theorem apart_nil : Apart [] := by simp [Apart]

theorem apart_cons {c : Char} (h : c ∈ apartChars) (cs : List Char) : Apart (c :: cs) := by
  rintro _ ⟨⟩
  exact h

theorem stringBody_blanks {blanks : List Char}
    (h : blanks.dropWhile (fun c => c = ' ' || c = '\t' || c = '\x0c') = []) :
    (stringBody blanks).fault ≠ none := by
  induction blanks with
  | nil => simp [stringBody, Extent.broken]
  | cons c blanks ih =>
    simp only [List.dropWhile_cons] at h
    split at h
    · rename_i hc
      have hcases : c = ' ' ∨ c = '\t' ∨ c = '\x0c' := by simpa [or_assoc] using hc
      have hstep : stringBody (c :: blanks) = (stringBody blanks).shift 1 := by
        rcases hcases with rfl | rfl | rfl <;>
          rw [stringBody_cons (by decide), if_neg (by decide), if_neg (by decide)]
      rw [hstep]
      exact ih h
    · cases h

/-- Three quotes at the end read as an empty string and a string that nothing closes. -/
theorem run_quotesAtEnd {s : State} (h : s.pending = 0) {c : Char} {cs : List Char}
    (hquotes : QuotesAtEnd c cs) : (run s (c :: cs)).error ≠ none := by
  obtain ⟨rfl, blanks, rfl, hblanks⟩ := hquotes
  have hopen : opensTextBlock blanks = false := by simp [opensTextBlock, hblanks]
  have hempty : lexeme '"' ('"' :: '"' :: blanks) = (.string, .whole 2) := by
    rw [lexeme_quote]
    simp only [stringLiteral, hopen]
    rw [if_neg (by simp), stringBody_cons (by decide), if_pos rfl]
    rfl
  have hopening : (lexeme '"' blanks).2.fault ≠ none := by
    have hplain : stringLiteral blanks = stringBody blanks := by
      unfold stringLiteral
      split
      · simp at hblanks
      · rfl
    rw [lexeme_quote, hplain]
    exact stringBody_blanks hblanks
  rw [run_token h (by decide) (by rw [hempty]; rfl)]
  have hbegun : (s.begun '"' ('"' :: '"' :: blanks)).pending = 0 + 1 := by
    simp [State.begun, hempty, Extent.whole]
  rw [run_pending hbegun]
  exact run_fault rfl (by decide) hopening

/-- A reading without a fault that takes no comment is plain. -/
theorem plain_of_run {s : State} {cs : List Char} (hle : s.pending ≤ cs.length)
    (herror : (run s cs).error = none)
    (htrivia : ∀ t ∈ (run s cs).tokens, t.kind.isTrivia = false) : Plain s cs := by
  induction cs generalizing s with
  | nil => exact .done (Nat.le_zero.mp hle)
  | cons c cs ih =>
    cases hpending : s.pending with
    | succ n =>
      rw [run_pending hpending] at herror htrivia
      refine .pending hpending (ih ?_ herror htrivia)
      simp only [hpending, List.length_cons] at hle
      show n ≤ cs.length
      omega
    | zero =>
      by_cases hc : isSpace c
      · rw [run_space hpending hc] at herror htrivia
        refine .space hpending hc (ih ?_ herror htrivia)
        show s.pending ≤ cs.length
        omega
      · have hc : isSpace c = false := by simpa using hc
        have hfault : (lexeme c cs).2.fault = none :=
          Decidable.byContradiction fun hfault => run_fault hpending hc hfault herror
        have hquotes : ¬ QuotesAtEnd c cs := fun hquotes => run_quotesAtEnd hpending hquotes herror
        rw [run_token hpending hc hfault] at herror htrivia
        have hkind : (lexeme c cs).1.isTrivia = false := htrivia _ List.mem_cons_self
        obtain ⟨_, _, hlength⟩ := lexeme_stays apart_nil hkind hquotes hfault
        refine .token hpending hc hfault hkind hquotes (ih ?_ herror fun t ht =>
          htrivia t (List.mem_cons_of_mem _ ht))
        show (lexeme c cs).2.length - 1 ≤ cs.length
        omega

/-- A plain reading goes on behind its text as if it began there. -/
theorem Plain.run_append {s : State} {cs : List Char} (h : Plain s cs) (hrest : Apart rest) :
    run s (cs ++ rest) = ⟨(run s cs).tokens ++ (run (passed s cs) rest).tokens,
      (run (passed s cs) rest).error⟩ := by
  induction h with
  | done h => simp [run, passed]
  | pending h more ih =>
    rw [List.cons_append, run_pending h, run_pending h, passed_pending h, ih]
  | space h hc more ih =>
    rw [List.cons_append, run_space h hc, run_space h hc, passed_space h hc, ih]
  | @token s c cs h hc hfault htrivia hquotes more ih =>
    obtain ⟨hstays, _, hlength⟩ := lexeme_stays hrest htrivia hquotes hfault
    have htoken : s.token c (cs ++ rest) = s.token c cs := by
      simp only [State.token, hstays]
      rw [← List.cons_append, List.take_append_of_le_length (by simpa using hlength)]
    have hbegun : s.begun c (cs ++ rest) = s.begun c cs := by simp only [State.begun, hstays]
    rw [List.cons_append, run_token h hc (by rw [hstays]; exact hfault), run_token h hc hfault,
      passed_token h hc, htoken, hbegun, ih]
    rfl

/-- Behind a plain reading no token is still being passed. -/
theorem Plain.passed_pending {s : State} {cs : List Char} (h : Plain s cs) :
    (passed s cs).pending = 0 := by
  induction h with
  | done h => exact h
  | pending h more ih => rw [Lexer.passed_pending h]; exact ih
  | space h hc more ih => rw [passed_space h hc]; exact ih
  | token h hc hfault htrivia hquotes more ih => rw [passed_token h hc]; exact ih

theorem State.beyond_line (s : State) (c : Char) :
    (s.beyond c).position.line = s.position.line + if c = '\n' then 1 else 0 := by
  simp only [State.beyond, Position.after]
  split <;> rfl

/-- A reading counts the line ends that it passes. -/
theorem passed_line (s : State) (cs : List Char) :
    (passed s cs).position.line = s.position.line + cs.count '\n' := by
  induction cs generalizing s with
  | nil => rfl
  | cons c cs ih =>
    have hline := s.beyond_line c
    rw [List.count_cons]
    unfold passed
    split
    · rw [ih]
      simp only [hline, beq_iff_eq]
      omega
    · split
      · rw [ih]
        simp only [hline, beq_iff_eq]
        omega
      · rw [ih]
        simp only [State.begun, hline, beq_iff_eq]
        omega

/-- The white space that is remembered is white space. -/
theorem passed_gap {s : State} (h : ∀ c ∈ s.gap, isSpace c) (cs : List Char) :
    ∀ c ∈ (passed s cs).gap, isSpace c := by
  induction cs generalizing s with
  | nil => exact h
  | cons d cs ih =>
    unfold passed
    split
    · exact ih h
    · split
      · rename_i hd
        refine ih fun c hc => ?_
        rcases List.mem_cons.mp hc with rfl | hc
        · exact hd
        · exact h c hc
      · exact ih fun c hc => absurd hc List.not_mem_nil

/-! ### What does not depend on the place -/

/-- What a token is, and the white space before it, wherever it stands. -/
def face (t : Token) : TokenKind × String × String := (t.kind, t.text, t.gap)

theorem Plain.not_trivia {s : State} {cs : List Char} (h : Plain s cs) :
    ∀ t ∈ (run s cs).tokens, t.kind.isTrivia = false := by
  induction h with
  | done h => simp [run]
  | pending h more ih => rw [run_pending h]; exact ih
  | space h hc more ih => rw [run_space h hc]; exact ih
  | token h hc hfault htrivia hquotes more ih =>
    rw [run_token h hc hfault]
    intro t ht
    rcases List.mem_cons.mp ht with rfl | ht
    · exact htrivia
    · exact ih t ht

/-- No token of a plain reading begins with white space. -/
theorem Plain.text_head {s : State} {cs : List Char} (h : Plain s cs) :
    ∀ t ∈ (run s cs).tokens, ∃ c more, t.text.toList = c :: more ∧ isSpace c = false := by
  induction h with
  | done h => simp [run]
  | pending h more ih => rw [run_pending h]; exact ih
  | space h hc more ih => rw [run_space h hc]; exact ih
  | @token s c cs h hc hfault htrivia hquotes more ih =>
    rw [run_token h hc hfault]
    intro t ht
    rcases List.mem_cons.mp ht with rfl | ht
    · obtain ⟨_, hpos, _⟩ := lexeme_stays apart_nil htrivia hquotes hfault
      obtain ⟨n, hn⟩ : ∃ n, (lexeme c cs).2.length = n + 1 :=
        ⟨_, (Nat.succ_pred_eq_of_pos hpos).symm⟩
      exact ⟨c, cs.take n, by simp [State.token, hn], hc⟩
    · exact ih t ht

/-- A plain reading is plain at another place, and takes the same tokens. -/
theorem Plain.relocate {s : State} {cs : List Char} (h : Plain s cs) (s' : State)
    (hpending : s'.pending = s.pending) (hgap : s'.gap = s.gap) :
    Plain s' cs ∧ (run s' cs).tokens.map face = (run s cs).tokens.map face := by
  induction h generalizing s' with
  | done h => exact ⟨.done (hpending.trans h), rfl⟩
  | @pending s n c cs h more ih =>
    have h' := hpending.trans h
    obtain ⟨hplain, hfaces⟩ := ih { s'.beyond c with pending := n } rfl hgap
    rw [run_pending h, run_pending h']
    exact ⟨.pending h' hplain, hfaces⟩
  | @space s c cs h hc more ih =>
    have h' := hpending.trans h
    obtain ⟨hplain, hfaces⟩ := ih { s'.beyond c with gap := c :: s'.gap } hpending
      (by simp only [hgap])
    rw [run_space h hc, run_space h' hc]
    exact ⟨.space h' hc hplain, hfaces⟩
  | @token s c cs h hc hfault htrivia hquotes more ih =>
    have h' := hpending.trans h
    obtain ⟨hplain, hfaces⟩ := ih (s'.begun c cs) rfl rfl
    rw [run_token h hc hfault, run_token h' hc hfault]
    refine ⟨.token h' hc hfault htrivia hquotes hplain, ?_⟩
    simp only [List.map_cons, hfaces]
    simp only [face, State.token, hgap]

/-- Behind a text that ends in no white space none is remembered. -/
theorem Plain.passed_gap_nil {s : State} {cs : List Char} (h : Plain s cs)
    (hgap : s.pending ≠ 0 ∨ cs = [] → s.gap = [])
    (hlast : ∀ c ∈ cs.getLast?, isSpace c = false) : (passed s cs).gap = [] := by
  induction h with
  | done h => exact hgap (.inr rfl)
  | @pending s n c cs h more ih =>
    rw [Lexer.passed_pending h]
    refine ih (fun _ => hgap (.inl (by omega))) fun d hd => hlast d ?_
    rw [List.getLast?_cons]
    simp_all
  | @space s c cs h hc more ih =>
    rw [passed_space h hc]
    have hlast' : ∀ d ∈ cs.getLast?, isSpace d = false := by
      intro d hd
      refine hlast d ?_
      rw [List.getLast?_cons]
      simp_all
    refine ih ?_ hlast'
    rintro (hpending | rfl)
    · exact absurd h hpending
    · have := hlast c rfl
      rw [hc] at this
      cases this
  | @token s c cs h hc hfault htrivia hquotes more ih =>
    rw [passed_token h hc]
    refine ih (fun _ => rfl) fun d hd => hlast d ?_
    rw [List.getLast?_cons]
    simp_all

/-- The characters of a token and of the white space before it. -/
def spelling (t : Token) : List Char := t.gap.toList ++ t.text.toList

/-- The tokens of a plain reading tile its text. -/
theorem Plain.tiles {s : State} {cs : List Char} (h : Plain s cs)
    (hgap : s.pending ≠ 0 → s.gap = []) :
    (run s cs).tokens.flatMap spelling ++ (passed s cs).gap.reverse =
      s.gap.reverse ++ cs.drop s.pending := by
  induction h with
  | done h => simp [run, passed]
  | @pending s n c cs h more ih =>
    rw [run_pending h, Lexer.passed_pending h, ih fun _ => hgap (by omega), h]
    rfl
  | @space s c cs h hc more ih =>
    rw [run_space h hc, passed_space h hc, ih fun hpending => absurd h hpending]
    simp [State.beyond, h]
  | @token s c cs h hc hfault htrivia hquotes more ih =>
    obtain ⟨_, hpos, _⟩ := lexeme_stays apart_nil htrivia hquotes hfault
    have hdrop : cs.drop ((lexeme c cs).2.length - 1) = (c :: cs).drop (lexeme c cs).2.length := by
      obtain ⟨n, hn⟩ : ∃ n, (lexeme c cs).2.length = n + 1 :=
        ⟨_, (Nat.succ_pred_eq_of_pos hpos).symm⟩
      simp [hn]
    rw [run_token h hc hfault, passed_token h hc, List.flatMap_cons, List.append_assoc,
      ih fun _ => rfl]
    simp only [spelling, State.token, State.begun, String.toList_ofList, hdrop, h, List.drop_zero,
      List.reverse_nil, List.nil_append, List.append_assoc, List.take_append_drop]

end JavaModel.Lexer
