import JavaModel.Proofs.Printing.RawText

/-! Brackets in runs of lexemes. What raw text takes of lexemes whose braces and parentheses nest is
nested itself, and declarations inside braces or parentheses are out of sight. Expressions count all
brackets alike, so that they keep no more than the count. -/

namespace JavaModel

/-- The number of pairs open behind a lexeme of a kind, unless that closes the outermost. -/
def Bracket.after? (b : Bracket) (depth : Nat) (k : TokenKind) : Option Nat :=
  if k = b.opening then some (depth + 1)
  else if k = b.closing then
    match depth with
    | 0 => none
    | d + 1 => some d
  else some depth

namespace Grammar

open Printing Reader

/-! ### Nesting -/

/-- The bracket that a kind opens. -/
def opened? : TokenKind → Option Bracket
  | .leftBrace => some .brace
  | .leftParen => some .paren
  | _ => none

/-- The bracket that a kind closes. -/
def closed? : TokenKind → Option Bracket
  | .rightBrace => some .brace
  | .rightParen => some .paren
  | _ => none

/-- Whether braces and parentheses close in the order in which they were opened, `awaited` being
those open. Square brackets do not count. -/
def closes (awaited : List Bracket) : List TokenKind → Bool
  | [] => awaited.isEmpty
  | k :: ks =>
    match opened? k with
    | some b => closes (b :: awaited) ks
    | none =>
      match closed? k, awaited with
      | none, _ => closes awaited ks
      | some b, c :: more => decide (c = b) && closes more ks
      | some _, [] => false

/-- Lexemes close certain braces and parentheses that were opened before them, the first one first,
and nest their own. -/
def Closes (awaited : List Bracket) (ls : List Lexeme) : Prop :=
  closes awaited (ls.map Lexeme.kind)

/-- Braces and parentheses close in the order in which they were opened. -/
def Nested (ls : List Lexeme) : Prop := Closes [] ls

instance (awaited : List Bracket) (ls : List Lexeme) : Decidable (Closes awaited ls) :=
  inferInstanceAs (Decidable (_ = true))

instance (ls : List Lexeme) : Decidable (Nested ls) := inferInstanceAs (Decidable (Closes [] ls))

variable {l : Lexeme} {ls ms : List Lexeme} {awaited more : List Bracket} {b : Bracket}

theorem opened?_eq_some {k : TokenKind} : opened? k = some b ↔ k = b.opening := by
  cases b <;> cases k <;> simp [opened?, Bracket.opening]

theorem closed?_eq_some {k : TokenKind} : closed? k = some b ↔ k = b.closing := by
  cases b <;> cases k <;> simp [closed?, Bracket.closing]

theorem opened?_closing (b : Bracket) : opened? b.closing = none := by cases b <;> rfl

/-- A kind opens a brace or a parenthesis, closes one, or does neither. -/
theorem bracket_cases (k : TokenKind) :
    (∃ b : Bracket, k = b.opening) ∨ (∃ b : Bracket, k = b.closing) ∨
      (opened? k = none ∧ closed? k = none) := by
  cases hopen : opened? k with
  | some b => exact .inl ⟨b, opened?_eq_some.mp hopen⟩
  | none =>
    cases hclose : closed? k with
    | some b => exact .inr (.inl ⟨b, closed?_eq_some.mp hclose⟩)
    | none => exact .inr (.inr ⟨rfl, rfl⟩)

theorem closes_nil : Closes awaited [] ↔ awaited = [] := by
  simp [Closes, closes]

theorem closes_open (h : l.kind = b.opening) :
    Closes awaited (l :: ls) ↔ Closes (b :: awaited) ls := by
  simp only [Closes, List.map_cons, closes, opened?_eq_some.mpr h]

theorem closes_close (h : l.kind = b.closing) :
    Closes awaited (l :: ls) ↔ ∃ more, awaited = b :: more ∧ Closes more ls := by
  have hopen : opened? l.kind = none := h ▸ opened?_closing b
  cases awaited with
  | nil => simp [Closes, closes, hopen, closed?_eq_some.mpr h]
  | cons c more => simp [Closes, closes, hopen, closed?_eq_some.mpr h]

theorem closes_other (hopen : opened? l.kind = none) (hclose : closed? l.kind = none) :
    Closes awaited (l :: ls) ↔ Closes awaited ls := by
  simp only [Closes, List.map_cons, closes, hopen, hclose]

theorem nested_nil : Nested [] := closes_nil.mpr rfl

/-- Lexemes that are neither braces nor parentheses are nested. -/
theorem nested_flat (h : ∀ l ∈ ls, opened? l.kind = none ∧ closed? l.kind = none) : Nested ls := by
  induction ls with
  | nil => exact nested_nil
  | cons l ls ih =>
    obtain ⟨⟨hopen, hclose⟩, hls⟩ := List.forall_mem_cons.mp h
    exact (closes_other hopen hclose).mpr (ih hls)

theorem Closes.append (hls : Closes awaited ls) (hms : Closes more ms) :
    Closes (awaited ++ more) (ls ++ ms) := by
  induction ls generalizing awaited with
  | nil =>
    rw [closes_nil.mp hls]
    exact hms
  | cons l ls ih =>
    rw [List.cons_append]
    rcases bracket_cases l.kind with ⟨b, hopen⟩ | ⟨b, hclose⟩ | ⟨hopen, hclose⟩
    · exact (closes_open hopen).mpr (ih ((closes_open hopen).mp hls))
    · obtain ⟨rest, rfl, hrest⟩ := (closes_close hclose).mp hls
      exact (closes_close hclose).mpr ⟨rest ++ more, rfl, ih hrest⟩
    · exact (closes_other hopen hclose).mpr (ih ((closes_other hopen hclose).mp hls))

theorem Nested.append (hls : Nested ls) (hms : Nested ms) : Nested (ls ++ ms) :=
  Closes.append hls hms

/-- What stands behind lexemes in a nested run closes what these leave open. -/
theorem Closes.tail (h : Closes awaited (l :: ls)) : ∃ more, Closes more ls := by
  rcases bracket_cases l.kind with ⟨b, hopen⟩ | ⟨b, hclose⟩ | ⟨hopen, hclose⟩
  · exact ⟨_, (closes_open hopen).mp h⟩
  · obtain ⟨more, _, hmore⟩ := (closes_close hclose).mp h
    exact ⟨more, hmore⟩
  · exact ⟨_, (closes_other hopen hclose).mp h⟩

/-- Nested lexemes between a bracket and the one that closes it are nested with the two. -/
theorem Nested.enclose {o close : Lexeme} (ho : o.kind = b.opening) (hls : Nested ls)
    (hclose : close.kind = b.closing) : Nested (o :: (ls ++ [close])) := by
  have hlast : Closes [b] [close] := (closes_close hclose).mpr ⟨[], rfl, nested_nil⟩
  exact (closes_open ho).mpr (Closes.append hls hlast)

/-! ### Raw text -/

theorem splitClosing_cons (b : Bracket) (depth : Nat) (l : Lexeme) (ls : List Lexeme) :
    splitClosing b depth (l :: ls) =
      match b.after? depth l.kind with
      | none => some ([], l, ls)
      | some next => (splitClosing b next ls).map fun (inner, rest) => (l :: inner, rest) := by
  by_cases hopen : l.kind = b.opening
  · simp [splitClosing, Bracket.after?, hopen]
  by_cases hclose : l.kind = b.closing
  · have hne : b.closing ≠ b.opening := hclose ▸ hopen
    cases depth <;> simp [splitClosing, Bracket.after?, hclose, hne]
  · simp [splitClosing, Bracket.after?, hopen, hclose]

theorem after?_eq_none {b : Bracket} {depth : Nat} {k : TokenKind}
    (h : b.after? depth k = none) : depth = 0 ∧ k = b.closing := by
  unfold Bracket.after? at h
  split at h
  · cases h
  split at h
  · rename_i hclosing
    cases depth with
    | zero => exact ⟨rfl, hclosing⟩
    | succ d => cases h
  · cases h

/-- Lexemes are split at a closing bracket. -/
theorem splitClosing_eq {b : Bracket} {depth : Nat} {inner rest : List Lexeme} {close : Lexeme}
    (h : splitClosing b depth ls = some (inner, close, rest)) :
    ls = inner ++ close :: rest ∧ close.kind = b.closing := by
  induction ls generalizing depth inner with
  | nil => cases h
  | cons l ls ih =>
    rw [splitClosing_cons] at h
    cases hafter : b.after? depth l.kind with
    | none =>
      rw [hafter] at h
      cases h
      exact ⟨rfl, (after?_eq_none hafter).2⟩
    | some next =>
      rw [hafter] at h
      obtain ⟨⟨front, close', rest'⟩, hsplit, heq⟩ := Option.map_eq_some_iff.mp h
      cases heq
      obtain ⟨rfl, hclose⟩ := ih hsplit
      exact ⟨rfl, hclose⟩

/-- What a reader of raw text takes: a first lexeme, and all up to a closing bracket. -/
theorem enclosed_ok {b : Bracket} {told : List Event} {raw : String} {rest : List Lexeme}
    (h : enclosed b ls = (told, .ok (raw, rest))) :
    told = [] ∧ ∃ o inner close, ls = o :: (inner ++ close :: rest) ∧
      splitClosing b 0 (inner ++ close :: rest) = some (inner, close, rest) ∧
      close.kind = b.closing ∧ raw = Text.trim (Lexeme.sourceText inner ++ close.leading) := by
  unfold enclosed at h
  split at h
  · rename_i inner close rest' hsplit
    cases h
    obtain ⟨htail, hclose⟩ := splitClosing_eq hsplit
    cases ls with
    | nil => cases hsplit
    | cons o ls =>
      rw [List.tail_cons] at hsplit htail
      subst htail
      exact ⟨rfl, o, inner, close, rfl, hsplit, hclose, rfl⟩
  · cases h

/-- Inside a bracket, a lexeme changes the brackets awaited and the count of pairs alike. -/
theorem after?_awaited {outer : List Bracket} {next : Nat}
    (hls : Closes (awaited ++ b :: outer) (l :: ls))
    (h : b.after? (awaited.count b) l.kind = some next) :
    ∃ more, next = more.count b ∧ Closes (more ++ b :: outer) ls ∧
      ∀ inner, Closes more inner → Closes awaited (l :: inner) := by
  have hne : b.closing ≠ b.opening := by cases b <;> decide
  rcases bracket_cases l.kind with ⟨c, hopen⟩ | ⟨c, hclose⟩ | ⟨hopen, hclose⟩
  · refine ⟨c :: awaited, ?_, (closes_open hopen).mp hls, fun _ => (closes_open hopen).mpr⟩
    by_cases hc : c = b
    · subst hc
      simpa [Bracket.after?, hopen, eq_comm] using h
    · rw [List.count_cons_of_ne hc]
      cases b <;> cases c <;> simp_all [Bracket.after?, Bracket.opening, Bracket.closing]
  · obtain ⟨rest, heq, hrest⟩ := (closes_close hclose).mp hls
    cases awaited with
    | nil =>
      obtain rfl : b = c := (List.cons.inj heq).1
      simp [Bracket.after?, hclose, hne] at h
    | cons x awaited =>
      obtain ⟨rfl, rfl⟩ := List.cons.inj heq
      refine ⟨awaited, ?_, hrest, fun _ h => (closes_close hclose).mpr ⟨_, rfl, h⟩⟩
      by_cases hx : x = b
      · subst hx
        simpa [Bracket.after?, hclose, hne, eq_comm] using h
      · rw [List.count_cons_of_ne hx] at h
        cases b <;> cases x <;> simp_all [Bracket.after?, Bracket.opening, Bracket.closing]
  · refine ⟨awaited, ?_, (closes_other hopen hclose).mp hls,
      fun _ => (closes_other hopen hclose).mpr⟩
    have hnot : l.kind ≠ b.opening ∧ l.kind ≠ b.closing := by
      rw [Ne, Ne, ← opened?_eq_some, ← closed?_eq_some, hopen, hclose]
      simp
    simpa [Bracket.after?, hnot.1, hnot.2, eq_comm] using h

/-- What is split off inside a bracket closes the brackets `awaited` that were opened in it before,
if the bracket around it is closed in order. -/
theorem closes_splitClosing {outer : List Bracket} {inner rest : List Lexeme} {close : Lexeme}
    (hls : Closes (awaited ++ b :: outer) ls)
    (h : splitClosing b (awaited.count b) ls = some (inner, close, rest)) :
    Closes awaited inner := by
  induction ls generalizing awaited inner with
  | nil => cases h
  | cons l ls ih =>
    rw [splitClosing_cons] at h
    cases hafter : b.after? (awaited.count b) l.kind with
    | none =>
      -- The bracket around is closed here, so that no other is awaited before it.
      rw [hafter] at h
      cases h
      obtain ⟨hcount, hkind⟩ := after?_eq_none hafter
      cases awaited with
      | nil => exact nested_nil
      | cons x awaited =>
        obtain ⟨_, heq, _⟩ := (closes_close hkind).mp hls
        rw [(List.cons.inj heq).1, List.count_cons_self] at hcount
        omega
    | some next =>
      rw [hafter] at h
      obtain ⟨more, rfl, hmore, hinner⟩ := after?_awaited hls hafter
      obtain ⟨⟨front, close', rest'⟩, hsplit, heq⟩ := Option.map_eq_some_iff.mp h
      cases heq
      exact hinner front (ih hmore hsplit)

/-! ### Expressions -/

/-- The state of an expression behind a lexeme and before others, unless it ends before both. -/
def ExpressionState.after? (s : ExpressionState) (l : Lexeme) (ls : List Lexeme) :
    Option ExpressionState :=
  match s.pending with
  | n + 1 => some ⟨n, s.depth, some l.kind⟩
  | 0 =>
    match l.kind with
    | .leftParen | .leftBracket | .leftBrace => some ⟨0, s.depth + 1, some l.kind⟩
    | .rightParen | .rightBracket | .rightBrace =>
      match s.depth with
      | 0 => none
      | d + 1 => some ⟨0, d, some l.kind⟩
    | .less => some ⟨(typeArgumentsLength s.before ls).getD 0, s.depth, some l.kind⟩
    | .semicolon | .comma => if s.depth = 0 then none else some ⟨0, s.depth, some l.kind⟩
    | _ => some ⟨0, s.depth, some l.kind⟩

theorem splitExpression_cons (s : ExpressionState) (l : Lexeme) (ls : List Lexeme) :
    splitExpression s (l :: ls) =
      match s.after? l ls with
      | none => ([], l :: ls)
      | some next => (l :: (splitExpression next ls).1, (splitExpression next ls).2) := by
  obtain ⟨pending, depth, before⟩ := s
  rw [splitExpression.eq_def]
  unfold ExpressionState.after?
  cases pending with
  | succ n => rfl
  | zero =>
    cases depth <;> dsimp only <;> split <;> simp_all

theorem splitExpression_append (s : ExpressionState) (ls : List Lexeme) :
    (splitExpression s ls).1 ++ (splitExpression s ls).2 = ls := by
  induction ls generalizing s with
  | nil => rfl
  | cons l ls ih =>
    rw [splitExpression_cons]
    cases s.after? l ls with
    | none => rfl
    | some next => exact congrArg (l :: ·) (ih next)

/-- What a reader of expressions takes: a lexeme at least, and not the last. -/
theorem expression_ok {told : List Event} {raw : String} {rest : List Lexeme}
    (h : expression ls = (told, .ok (raw, rest))) :
    told = [] ∧ ∃ inner, ls = inner ++ rest ∧ splitExpression ⟨0, 0, none⟩ ls = (inner, rest) ∧
      inner ≠ [] ∧ rest ≠ [] ∧ raw = Lexeme.bareText inner := by
  have happend := splitExpression_append ⟨0, 0, none⟩ ls
  unfold expression at h
  split at h
  · cases h
  rcases hsplit : splitExpression ⟨0, 0, none⟩ ls with ⟨inner, rest'⟩
  rw [hsplit] at h happend
  dsimp only at h
  split at h
  · cases h
  split at h
  · cases h
  · rename_i hrest hinner
    cases h
    exact ⟨rfl, inner, happend.symm, rfl, by simpa using hinner, by simpa using hrest, rfl⟩

/-- An expression ends outside all brackets. -/
theorem after?_none {s : ExpressionState} (h : s.after? l ls = none) :
    s.pending = 0 ∧ s.depth = 0 := by
  obtain ⟨pending, depth, before⟩ := s
  unfold ExpressionState.after? at h
  cases pending with
  | succ n => cases h
  | zero => cases depth <;> cases hl : l.kind <;> simp_all

/-- A lexeme that is counted changes the number of brackets open as it says, whatever it does
else. -/
theorem after?_depth {depth : Nat} {before : Option TokenKind} {next : ExpressionState}
    (h : ExpressionState.after? ⟨0, depth, before⟩ l ls = some next) :
    next.depth + (if isClosing l.kind then 1 else 0) =
      depth + if (closing? l.kind).isSome then 1 else 0 := by
  unfold ExpressionState.after? at h
  cases hl : l.kind <;> cases depth <;> simp_all [closing?, isClosing] <;> simp [← h]

/-! ### Counters -/

/-- Behind `depth` openings, no more is closed at any place among lexemes than has been opened. -/
def Covered (opens closes : TokenKind → Bool) (depth : Nat) (ls : List Lexeme) : Prop :=
  ∀ front, front <+: ls →
    front.countP (closes ·.kind) ≤ depth + front.countP (opens ·.kind)

theorem covered_nil (opens closes : TokenKind → Bool) (depth : Nat) :
    Covered opens closes depth [] := by
  intro front hfront
  rw [List.prefix_nil.mp hfront]
  exact Nat.zero_le _

/-- A count goes on from what a lexeme makes of it. -/
theorem Covered.cons {opens closes : TokenKind → Bool} {depth next : Nat}
    (h : Covered opens closes next ls) (hstep : next + (if closes l.kind then 1 else 0) =
      depth + if opens l.kind then 1 else 0) : Covered opens closes depth (l :: ls) := by
  intro front hfront
  cases front with
  | nil => exact Nat.zero_le _
  | cons f front =>
    obtain ⟨rfl, hprefix⟩ := List.cons_prefix_cons.mp hfront
    have := h front hprefix
    simp only [List.countP_cons]
    omega

/-- The pairs inside a bracket that are still open are never fewer than none. -/
theorem covered_splitClosing {b : Bracket} {depth : Nat} {inner rest : List Lexeme}
    {close : Lexeme} (h : splitClosing b depth ls = some (inner, close, rest)) :
    Covered (· = b.opening) (· = b.closing) depth inner := by
  have hne : b.closing ≠ b.opening := by cases b <;> decide
  induction ls generalizing depth inner with
  | nil => cases h
  | cons l ls ih =>
    rw [splitClosing_cons] at h
    cases hafter : b.after? depth l.kind with
    | none =>
      rw [hafter] at h
      cases h
      exact covered_nil _ _ _
    | some next =>
      rw [hafter] at h
      obtain ⟨⟨front, close', rest'⟩, hsplit, heq⟩ := Option.map_eq_some_iff.mp h
      cases heq
      refine (ih hsplit).cons ?_
      unfold Bracket.after? at hafter
      by_cases hopen : l.kind = b.opening
      · rw [if_pos hopen] at hafter
        cases hafter
        simp [hopen, hne.symm]
      · rw [if_neg hopen] at hafter
        by_cases hclose : l.kind = b.closing
        · cases depth <;> simp_all
        · simp_all

/-- The lexemes of an expression outside the type arguments that are passed over. -/
def counted (s : ExpressionState) : List Lexeme → List Lexeme
  | [] => []
  | l :: ls =>
    match s.after? l ls with
    | none => []
    | some next => if s.pending = 0 then l :: counted next ls else counted next ls

/-- The pairs that an expression has open are never fewer than none. -/
theorem covered_counted (s : ExpressionState) (ls : List Lexeme) :
    Covered (fun k => (closing? k).isSome) isClosing s.depth (counted s ls) := by
  induction ls generalizing s with
  | nil => exact covered_nil _ _ _
  | cons l ls ih =>
    unfold counted
    cases hafter : s.after? l ls with
    | none => exact covered_nil _ _ _
    | some next =>
      obtain ⟨pending, depth, before⟩ := s
      cases pending with
      | succ n =>
        cases hafter
        exact ih ⟨n, depth, some l.kind⟩
      | zero => exact (ih next).cons (after?_depth hafter)

/-- A lexeme before the closing bracket of type arguments. -/
theorem angleLength_step {opens closes : TokenKind → Bool} {depth next n : Nat}
    (h : 0 < n ∧ n ≤ ls.length ∧ Covered opens closes next (ls.take (n - 1)))
    (hstep : next + (if closes l.kind then 1 else 0) = depth + if opens l.kind then 1 else 0) :
    0 < n + 1 ∧ n + 1 ≤ (l :: ls).length ∧
      Covered opens closes depth ((l :: ls).take (n + 1 - 1)) := by
  obtain ⟨hpos, hle, hcovered⟩ := h
  refine ⟨Nat.succ_pos n, Nat.succ_le_succ hle, ?_⟩
  obtain ⟨m, rfl⟩ : ∃ m, n = m + 1 := ⟨n - 1, by omega⟩
  exact hcovered.cons hstep

/-- The type arguments that are passed over are there, and up to their last bracket never more of
them is closed than has been opened behind the first. -/
theorem angleLength_spec {depth n : Nat} (h : angleLength depth ls = some n) :
    0 < n ∧ n ≤ ls.length ∧ Covered (· = .less) (· = .greater) depth (ls.take (n - 1)) := by
  fun_induction angleLength depth ls generalizing n with
  | case1 | case2 | case5 => cases h
  | case4 l ls =>
    cases h
    exact ⟨Nat.one_pos, by simp, covered_nil _ _ _⟩
  | case3 depth l ls _ hless ih =>
    obtain ⟨m, hm, rfl⟩ := Option.map_eq_some_iff.mp h
    exact angleLength_step (ih hm) (by simp [hless])
  | case6 l ls _ hless hgreater d ih =>
    obtain ⟨m, hm, rfl⟩ := Option.map_eq_some_iff.mp h
    exact angleLength_step (ih hm) (by simp [hgreater])
  | case7 depth l ls _ hless hgreater ih =>
    obtain ⟨m, hm, rfl⟩ := Option.map_eq_some_iff.mp h
    exact angleLength_step (ih hm) (by simp [hless, hgreater])

/-! ### What is out of sight -/

/-- The words that begin the declaration of a class, an interface or an enum. -/
def isDeclaring : TokenKind → Bool
  | .classWord | .interfaceWord | .enumWord => true
  | _ => false

/-- The number of words among kinds that begin a declaration and stand outside all braces and
parentheses, behind so many that are open. -/
def outerWords (braces parens : Nat) : List TokenKind → Nat
  | [] => 0
  | .leftBrace :: ks => outerWords (braces + 1) parens ks
  | .rightBrace :: ks => outerWords (braces - 1) parens ks
  | .leftParen :: ks => outerWords braces (parens + 1) ks
  | .rightParen :: ks => outerWords braces (parens - 1) ks
  | k :: ks => (if isDeclaring k && braces = 0 && parens = 0 then 1 else 0) +
      outerWords braces parens ks

/-- A kind that is neither a brace nor a parenthesis counts where none is open. -/
theorem outerWords_cons {braces parens : Nat} {k : TokenKind} (hopen : opened? k = none)
    (hclose : closed? k = none) (ks : List TokenKind) :
    outerWords braces parens (k :: ks) =
      (if isDeclaring k && braces = 0 && parens = 0 then 1 else 0) +
        outerWords braces parens ks := by
  cases k <;> simp_all [outerWords, opened?, closed?]

/-- Behind lexemes that close what is theirs, words count as if those were not there. -/
theorem outerWords_append {braces parens : Nat} (h : Closes awaited ls) (ks : List TokenKind) :
    outerWords (braces + awaited.count .brace) (parens + awaited.count .paren)
        (ls.map Lexeme.kind ++ ks) =
      outerWords (braces + awaited.count .brace) (parens + awaited.count .paren)
        (ls.map Lexeme.kind) + outerWords braces parens ks := by
  induction ls generalizing awaited with
  | nil =>
    rw [closes_nil.mp h]
    exact (Nat.zero_add _).symm
  | cons l ls ih =>
    rw [List.map_cons, List.cons_append]
    rcases bracket_cases l.kind with ⟨b, hopen⟩ | ⟨b, hclose⟩ | ⟨hopen, hclose⟩
    · have ih := ih ((closes_open hopen).mp h)
      rw [hopen]
      cases b <;> simpa [outerWords, Bracket.opening, Nat.add_assoc] using ih
    · obtain ⟨rest, rfl, hrest⟩ := (closes_close hclose).mp h
      have ih := ih hrest
      rw [hclose]
      cases b <;> simpa [outerWords, Bracket.closing, Nat.add_assoc] using ih
    · rw [outerWords_cons hopen hclose, outerWords_cons hopen hclose,
        ih ((closes_other hopen hclose).mp h), Nat.add_assoc]

/-- Inside braces or parentheses, nothing is seen of lexemes that close what is theirs. -/
theorem outerWords_inside {braces parens : Nat} (hinside : 0 < braces + parens)
    (h : Closes awaited ls) : outerWords (braces + awaited.count .brace)
      (parens + awaited.count .paren) (ls.map Lexeme.kind) = 0 := by
  induction ls generalizing awaited with
  | nil => rfl
  | cons l ls ih =>
    rw [List.map_cons]
    rcases bracket_cases l.kind with ⟨b, hopen⟩ | ⟨b, hclose⟩ | ⟨hopen, hclose⟩
    · have ih := ih ((closes_open hopen).mp h)
      rw [hopen]
      cases b <;> simpa [outerWords, Bracket.opening, Nat.add_assoc] using ih
    · obtain ⟨rest, rfl, hrest⟩ := (closes_close hclose).mp h
      have ih := ih hrest
      rw [hclose]
      cases b <;> simpa [outerWords, Bracket.closing, Nat.add_assoc] using ih
    · rw [outerWords_cons hopen hclose, ih ((closes_other hopen hclose).mp h), if_neg]
      simp only [Bool.and_eq_true, decide_eq_true_eq, not_and]
      intro _ hbraces
      omega

/-- Nothing is seen of nested lexemes inside braces or parentheses. -/
theorem outerWords_enclosed {o close : Lexeme} (ho : o.kind = b.opening) (hls : Nested ls)
    (hclose : close.kind = b.closing) :
    outerWords 0 0 ((o :: (ls ++ [close])).map Lexeme.kind) = 0 := by
  rw [List.map_cons, List.map_append, ho, List.map_singleton, hclose]
  cases b with
  | brace =>
    have happend := @outerWords_append _ _ 1 0 hls [.rightBrace]
    have hinside := @outerWords_inside _ _ 1 0 (by omega) hls
    exact happend.trans (by rw [hinside]; rfl)
  | paren =>
    have happend := @outerWords_append _ _ 0 1 hls [.rightParen]
    have hinside := @outerWords_inside _ _ 0 1 (by omega) hls
    exact happend.trans (by rw [hinside]; rfl)

/-- Comments are no words and no brackets. -/
theorem outerWords_ofTokens (braces parens : Nat) (leading : String) (doc : Option String)
    (ts : List Token) : outerWords braces parens ((Lexeme.attach leading doc ts).map Lexeme.kind) =
      outerWords braces parens (ts.map Token.kind) := by
  induction ts generalizing leading doc braces parens with
  | nil => rfl
  | cons t ts ih =>
    unfold Lexeme.attach
    split
    · rename_i htrivia
      rw [ih, List.map_cons]
      cases hkind : t.kind <;> simp_all [TokenKind.isTrivia, outerWords, isDeclaring]
    · rw [List.map_cons, List.map_cons]
      cases hkind : t.kind <;> simp [outerWords, ih]

end Grammar

/-- The significant tokens of a text. -/
def lexemes (text : String) : List Lexeme := Lexeme.ofTokens (lex text).tokens

end JavaModel
