import JavaModel.Grammar.Declarations
import JavaModel.Proofs.Grammar.Brackets
import JavaModel.Proofs.Grammar.Silence

/-! What readers find in front of them and pass over at once: the segments of a name, the words of a
modifier, of a receiver or of the kind of a declaration, and pairs of square brackets. All of it is
there, and none of it is a brace or a parenthesis. -/

namespace JavaModel

namespace Grammar

open Reader Lexeme

variable {ls : List Lexeme}

/-- The kinds that are neither braces nor parentheses and begin no declaration. -/
def isPlain (k : TokenKind) : Bool :=
  (opened? k).isNone && (closed? k).isNone && !isDeclaring k

/-- The number of words that begin a declaration of a kind. The word of a record is none. -/
def wordCount (kind : ClassKind) : Nat := if kind ≠ .recordType then 1 else 0

theorem kindAt_zero {k : TokenKind} (h : kindAt ls 0 = some k) :
    ∃ l rest, ls = l :: rest ∧ l.kind = k := by
  cases ls with
  | nil => cases h
  | cons l rest => exact ⟨l, rest, rfl, by simpa [kindAt] using h⟩

theorem isWordAt_eq {n : Nat} {word : String} (h : isWordAt ls n word) :
    ∃ l, ls[n]? = some l ∧ l.kind = .identifier := by
  unfold isWordAt at h
  split at h
  · rename_i l hl
    exact ⟨l, hl, by simpa using (Bool.and_eq_true_iff.mp h).1⟩
  · cases h

theorem takeSegments_append (name : String) (ls : List Lexeme) :
    ∃ front, ls = front ++ (takeSegments name ls).2 ∧ ∀ l ∈ front, isPlain l.kind := by
  fun_induction takeSegments name ls with
  | case1 name d l ls h ih =>
    obtain ⟨front, hls, hfront⟩ := ih
    simp only [Bool.and_eq_true, decide_eq_true_eq] at h
    refine ⟨d :: l :: front, by rw [List.cons_append, List.cons_append, ← hls], ?_⟩
    simp only [List.forall_mem_cons, h.1, h.2]
    exact ⟨rfl, rfl, hfront⟩
  | case2 | case3 => exact ⟨[], rfl, by simp⟩

/-- The lexemes that write a modifier are there, and are plain. -/
theorem modifierAt?_spec {m : Modifier} {n : Nat} (h : modifierAt? ls = some (m, n)) :
    0 < n ∧ ∃ front rest, ls = front ++ rest ∧ front.length = n ∧ ∀ l ∈ front, isPlain l.kind := by
  unfold modifierAt? at h
  split at h
  · rename_i m' hkind
    cases h
    obtain ⟨l, rest, rfl, hl⟩ := kindAt_zero hkind
    have hplain : isPlain l.kind := by simp [hl, isPlain, opened?, closed?, isDeclaring]
    exact ⟨Nat.one_pos, [l], rest, rfl, rfl, by simpa using hplain⟩
  split at h
  · rename_i hsealed
    cases h
    obtain ⟨l, hl, hkind⟩ := isWordAt_eq (Bool.and_eq_true_iff.mp hsealed).1
    cases ls with
    | nil => cases hl
    | cons l' rest =>
      cases hl
      exact ⟨Nat.one_pos, [l], rest, rfl, rfl, by simp [hkind]; rfl⟩
  split at h
  · rename_i hnon
    cases h
    simp only [Bool.and_eq_true, decide_eq_true_eq] at hnon
    obtain ⟨⟨hfirst, hminus⟩, hthird⟩ := hnon
    obtain ⟨l, hl, hkind⟩ := isWordAt_eq hfirst
    obtain ⟨l', hl', hkind'⟩ := isWordAt_eq hthird
    rcases ls with _ | ⟨a, _ | ⟨b, _ | ⟨c, rest⟩⟩⟩
    · simp at hl'
    · simp at hl'
    · simp at hl'
    · cases hl
      cases hl'
      have hb : b.kind = .minus := by simpa [kindAt] using hminus
      exact ⟨by omega, [l, b, l'], rest, rfl, rfl, by simp [hkind, hkind', hb]; decide⟩
  · cases h

theorem countDims_append (ls : List Lexeme) :
    ∃ front, ls = front ++ (countDims ls).2 ∧ ∀ l ∈ front, isPlain l.kind := by
  fun_induction countDims ls with
  | case1 l r ls h n rest hcount ih =>
    obtain ⟨front, hls, hfront⟩ := ih
    simp only [Bool.and_eq_true, decide_eq_true_eq] at h
    rw [hcount] at hls
    refine ⟨l :: r :: front, by rw [hls]; rfl, ?_⟩
    simp only [List.forall_mem_cons, h.1, h.2]
    exact ⟨rfl, rfl, hfront⟩
  | case2 | case3 => exact ⟨[], rfl, by simp⟩

theorem isThisAt_eq {n : Nat} (h : isThisAt ls n) : ∃ l, ls[n]? = some l ∧ l.kind = .reserved := by
  unfold isThisAt at h
  split at h
  · rename_i l hl
    exact ⟨l, hl, by simpa using (Bool.and_eq_true_iff.mp h).1⟩
  · cases h

/-- The lexemes that name a receiver are there, and are plain. -/
theorem receiverLength?_spec {n : Nat} (h : receiverLength? ls = some n) :
    0 < n ∧ ∃ front rest, ls = front ++ rest ∧ front.length = n ∧ ∀ l ∈ front, isPlain l.kind := by
  unfold receiverLength? at h
  split at h
  · rename_i hthis
    cases h
    obtain ⟨l, hl, hkind⟩ := isThisAt_eq hthis
    cases ls with
    | nil => cases hl
    | cons l' rest =>
      cases hl
      exact ⟨Nat.one_pos, [l], rest, rfl, rfl, by simp [hkind]; rfl⟩
  split at h
  · rename_i hthird
    cases h
    simp only [Bool.and_eq_true, decide_eq_true_eq] at hthird
    obtain ⟨⟨hfirst, hdot⟩, hthis⟩ := hthird
    obtain ⟨l, hl, hkind⟩ := isThisAt_eq hthis
    match ls with
    | [] | [_] | [_, _] => simp at hl
    | a :: b :: c :: rest =>
      cases hl
      have ha : a.kind = .identifier := by simpa [kindAt] using hfirst
      have hb : b.kind = .dot := by simpa [kindAt] using hdot
      exact ⟨by omega, [a, b, l], rest, rfl, rfl, by simp [ha, hb, hkind]; decide⟩
  · cases h

/-- The lexemes that say the kind of a declaration are there, with as many words among them as the
kind has. -/
theorem declarationKind?_spec {kind : ClassKind} (h : declarationKind? ls = some kind) :
    ∃ front rest, ls = front ++ rest ∧ front.length = kindLength kind ∧
      (∀ l ∈ front, opened? l.kind = none ∧ closed? l.kind = none) ∧
      front.countP (isDeclaring ·.kind) = wordCount kind := by
  unfold declarationKind? at h
  cases ls with
  | nil => simp [kindAt, isWordAt] at h
  | cons l ls =>
    split at h
    · rename_i hkind
      cases h
      have hl : l.kind = .classWord := by simpa [kindAt] using hkind
      exact ⟨[l], ls, rfl, rfl, by simp [hl]; decide, by simp [hl]; rfl⟩
    · rename_i hkind
      cases h
      have hl : l.kind = .interfaceWord := by simpa [kindAt] using hkind
      exact ⟨[l], ls, rfl, rfl, by simp [hl]; decide, by simp [hl]; rfl⟩
    · rename_i hkind
      cases h
      have hl : l.kind = .enumWord := by simpa [kindAt] using hkind
      exact ⟨[l], ls, rfl, rfl, by simp [hl]; decide, by simp [hl]; rfl⟩
    · rename_i hkind
      have hl : l.kind = .atSign := by simpa [kindAt] using hkind
      split at h
      · rename_i hinterface
        cases h
        cases ls with
        | nil => simp [kindAt] at hinterface
        | cons l' ls =>
          have hl' : l'.kind = .interfaceWord := by simpa [kindAt] using hinterface
          exact ⟨[l, l'], ls, rfl, rfl, by simp [hl, hl']; decide,
            by simp [hl, hl', isDeclaring, wordCount]⟩
      · cases h
    · split at h
      · rename_i hrecord
        cases h
        simp only [Bool.and_eq_true] at hrecord
        obtain ⟨_, hl, hkind⟩ := isWordAt_eq hrecord.1.1
        cases hl
        exact ⟨[l], ls, rfl, rfl, by simp [hkind]; decide, by simp [hkind]; rfl⟩
      · cases h

end Grammar

end JavaModel
