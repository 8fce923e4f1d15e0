import JavaModel.Grammar.RawText
import JavaModel.Proofs.Grammar.Parts
import JavaModel.Proofs.Token.Words

/-! Readers on spelled pieces. A reader reads pieces when it takes the lexemes of just these pieces,
whatever acceptable pieces stand behind them, tells given events and returns a given value. Readers
that do so can be put one after the other and repeated. -/

namespace JavaModel

/-! ### Looking ahead -/

/-- The kind of the piece `n` places further on. -/
def kindOf (ps : List Piece) (n : Nat) : Option TokenKind := ps[n]?.map Piece.kind

/-- Whether the piece `n` places further on is the identifier `word`. -/
def isWordOf (ps : List Piece) (n : Nat) (word : String) : Bool :=
  match ps[n]? with
  | some p => p.kind = .identifier && p.text = word
  | none => false

@[simp] theorem kindOf_nil (n : Nat) : kindOf [] n = none := rfl

@[simp] theorem kindOf_zero (p : Piece) (ps : List Piece) : kindOf (p :: ps) 0 = some p.kind := rfl

@[simp] theorem kindOf_succ (p : Piece) (ps : List Piece) (n : Nat) :
    kindOf (p :: ps) (n + 1) = kindOf ps n := rfl

@[simp] theorem isWordOf_nil (n : Nat) (word : String) : isWordOf [] n word = false := rfl

@[simp] theorem isWordOf_zero (p : Piece) (ps : List Piece) (word : String) :
    isWordOf (p :: ps) 0 word = (p.kind = .identifier && p.text = word : Bool) := rfl

@[simp] theorem isWordOf_succ (p : Piece) (ps : List Piece) (n : Nat) (word : String) :
    isWordOf (p :: ps) (n + 1) word = isWordOf ps n word := rfl

theorem isWordOf_eq_false (ps : List Piece) (h : kindOf ps 0 ≠ some .identifier) (word : String) :
    isWordOf ps 0 word = false := by
  cases ps with
  | nil => rfl
  | cons p ps =>
    have hp : p.kind ≠ .identifier := fun hp => h (by simp [hp])
    simp [hp]

theorem kindOf_append {ps : List Piece} {n : Nat} {k : TokenKind} (h : kindOf ps n = some k)
    (more : List Piece) : kindOf (ps ++ more) n = some k := by
  unfold kindOf at h ⊢
  obtain ⟨p, hp, rfl⟩ := Option.map_eq_some_iff.mp h
  obtain ⟨hn, _⟩ := List.getElem?_eq_some_iff.mp hp
  rw [List.getElem?_append_left hn, hp]
  rfl

theorem ne_nil_of_kindOf {ps : List Piece} {n : Nat} {k : TokenKind} (h : kindOf ps n = some k) :
    ps ≠ [] := by
  rintro rfl
  cases h

/-- Kinds do not depend on the lines asked for. -/
theorem kindOf_onLine (n : Nat) (ws : List Word) (more : List Piece) (i : Nat) :
    kindOf (spell (onLine n ws) ++ more) i = kindOf (spell ws ++ more) i := by
  have hkinds : (spell (onLine n ws) ++ more).map Piece.kind =
      (spell ws ++ more).map Piece.kind := by
    cases ws with
    | nil => rfl
    | cons w ws =>
      simp only [onLine, spell_cons, List.map_append, Word.pieces, Word.onLine]
      cases (lex w.text).tokens <;> rfl
  unfold kindOf
  rw [← List.getElem?_map, ← List.getElem?_map, hkinds]

namespace Spelled

theorem kindAt {ps : List Piece} {ls : List Lexeme} (h : Spelled ps ls) (n : Nat) :
    Lexeme.kindAt ls n = kindOf ps n := by
  induction h generalizing n with
  | nil => rfl
  | cons hp _ ih =>
    cases n with
    | zero => simp [Lexeme.kindAt, hp.kind]
    | succ n => exact ih n

theorem isWordAt {ps : List Piece} {ls : List Lexeme} (h : Spelled ps ls) (n : Nat)
    (word : String) : Lexeme.isWordAt ls n word = isWordOf ps n word := by
  induction h generalizing n with
  | nil => rfl
  | cons hp _ ih =>
    cases n with
    | zero => simp [Lexeme.isWordAt, hp.kind, hp.text]
    | succ n => exact ih n

theorem uncons {p : Piece} {ps : List Piece} {ls : List Lexeme} (h : Spelled (p :: ps) ls) :
    ∃ l rest, ls = l :: rest ∧ p.Fits l ∧ Spelled ps rest := by
  cases h with
  | cons hp hrest => exact ⟨_, _, rfl, hp, hrest⟩

theorem split {ps qs : List Piece} {ls : List Lexeme} (h : Spelled (ps ++ qs) ls) :
    ∃ front rest, ls = front ++ rest ∧ Spelled ps front ∧ Spelled qs rest := by
  induction ps generalizing ls with
  | nil => exact ⟨[], ls, rfl, .nil, h⟩
  | cons p ps ih =>
    cases h with
    | cons hp hmore =>
      obtain ⟨front, rest, rfl, hfront, hrest⟩ := ih hmore
      exact ⟨_ :: front, rest, rfl, .cons hp hfront, hrest⟩

theorem isEmpty {ps : List Piece} {ls : List Lexeme} (h : Spelled ps ls) :
    ls.isEmpty = ps.isEmpty := by
  cases h <;> rfl

/-- Words asked to begin on a line are spelled like the same words on any line, and begin on it. -/
theorem onLine {ws : List Word} (hclean : ∀ w ∈ ws, w.Clean) (hne : ws ≠ []) {n : Nat}
    {more : List Piece} {ls : List Lexeme} (h : Spelled (spell (onLine n ws) ++ more) ls) :
    Spelled (spell ws ++ more) ls ∧ ls.head?.map Lexeme.line = some n := by
  cases ws with
  | nil => exact absurd rfl hne
  | cons w ws =>
    have hpieces := (hclean w List.mem_cons_self).pieces_ne_nil
    simp only [JavaModel.onLine, spell_cons, Word.onLine, Word.pieces, List.append_assoc] at h ⊢
    unfold Word.pieces at hpieces
    cases htokens : (lex w.text).tokens with
    | nil => simp [htokens] at hpieces
    | cons t ts =>
      simp only [htokens, List.cons_append] at h ⊢
      cases h with
      | cons hp hmore =>
        refine ⟨.cons ⟨hp.kind, hp.text, hp.doc, hp.leading, hp.blank, fun m hm => ?_⟩ hmore, ?_⟩
        · exact hp.line m (List.mem_cons_of_mem _ hm)
        · simp [hp.line n List.mem_cons_self]

end Spelled

namespace Reader

variable {α β : Type} {ps qs : List Piece} {after after' : List Piece → Prop}
variable {told told' : List Event} {a : α} {b : β}

/-- Behind a reader that tells nothing, all that is seen of it is its result. -/
theorem bind_quiet {p : Reader α} {f : α → Reader β} {a : α} {ls rest : List Lexeme}
    (h : p ls = ([], .ok (a, rest))) : (p >>= f) ls = f a rest := by
  show andThen p f ls = _
  unfold andThen
  rw [h]
  rfl

/-- A reader takes the lexemes of pieces in front of any acceptable others, tells given events and
returns a given value. -/
def Reads (p : Reader α) (ps : List Piece) (after : List Piece → Prop) (told : List Event)
    (a : α) : Prop :=
  ∀ more ls, after more → Spelled (ps ++ more) ls →
    ∃ rest, Spelled more rest ∧ p ls = (told, .ok (a, rest))

namespace Reads

/-- Fewer pieces may be acceptable. -/
theorem mono {p : Reader α} (h : Reads p ps after told a)
    (hafter : ∀ more, after' more → after more) : Reads p ps after' told a :=
  fun more ls hmore hls => h more ls (hafter more hmore) hls

/-! ### Sequences -/

theorem bind {p : Reader α} {f : α → Reader β} (hp : Reads p ps after told a)
    (hf : Reads (f a) qs after' told' b) (h : ∀ more, after' more → after (qs ++ more)) :
    Reads (p >>= f) (ps ++ qs) after' (told ++ told') b := by
  intro more ls hmore hls
  rw [List.append_assoc] at hls
  obtain ⟨middle, hmiddle, hrun⟩ := hp (qs ++ more) ls (h more hmore) hls
  obtain ⟨rest, hrest, hrun'⟩ := hf more middle hmore hmiddle
  refine ⟨rest, hrest, ?_⟩
  show andThen p f ls = _
  simp [andThen, hrun, hrun']

/-- A reader that takes nothing and tells nothing goes before another. -/
theorem look {p : Reader α} {f : α → Reader β} (hp : Reads p [] after [] a)
    (h : ∀ more, after' more → after (qs ++ more)) (hf : Reads (f a) qs after' told' b) :
    Reads (p >>= f) qs after' told' b :=
  hp.bind hf h

/-- A reader that takes nothing goes before another. -/
theorem say {p : Reader α} {f : α → Reader β} (hp : Reads p [] (fun _ => True) told a)
    (hf : Reads (f a) qs after' told' b) : Reads (p >>= f) qs after' (told ++ told') b :=
  hp.bind hf fun _ _ => trivial

/-- A reader that takes one piece and tells nothing goes before another. -/
theorem step {p : Reader α} {f : α → Reader β} {piece : Piece}
    (hp : Reads p [piece] (fun _ => True) [] a) (hf : Reads (f a) qs after' told' b) :
    Reads (p >>= f) (piece :: qs) after' told' b :=
  hp.bind hf fun _ _ => trivial

/-- A reader that tells nothing goes before another. -/
theorem quiet {p : Reader α} {f : α → Reader β} (hp : Reads p ps after [] a)
    (h : ∀ more, after' more → after (qs ++ more)) (hf : Reads (f a) qs after' told' b) :
    Reads (p >>= f) (ps ++ qs) after' told' b :=
  hp.bind hf h

/-- A reader goes before another that takes nothing and tells nothing. -/
theorem last {p : Reader α} {f : α → Reader β} (hp : Reads p ps after told a)
    (hf : Reads (f a) [] after [] b) : Reads (p >>= f) ps after told b := by
  have h := hp.bind hf fun _ hmore => hmore
  rwa [List.append_nil, List.append_nil] at h

/-- A reader that tells nothing goes before another that takes nothing. -/
theorem finish {p : Reader α} {f : α → Reader β} (hp : Reads p ps after [] a)
    (hf : Reads (f a) [] after told b) : Reads (p >>= f) ps after told b := by
  have h := hp.bind hf fun _ hmore => hmore
  rwa [List.append_nil] at h

protected theorem pure (a : α) : Reads (pure a) [] after [] a :=
  fun _ ls _ hls => ⟨ls, hls, rfl⟩

/-- A value is passed on. -/
theorem pass {f : α → Reader β} (hf : Reads (f a) qs after' told' b) :
    Reads (Pure.pure a >>= f) qs after' told' b := by
  rwa [pure_bind]

theorem done {a b : α} (h : a = b) : Reads (Pure.pure a) [] after [] b := h ▸ .pure a

theorem tell_last (e : Event) : Reads (Reader.tell e) [] after [e] () :=
  fun _ ls _ hls => ⟨ls, hls, rfl⟩

/-- What is told goes before what is told later. -/
theorem tell {f : Unit → Reader β} (e : Event) (hf : Reads (f ()) qs after' told' b) :
    Reads (Reader.tell e >>= f) qs after' (e :: told') b :=
  say (tell_last e) hf

/-- Looking at the lexemes left, of which only what is spelled can be known. -/
theorem lookAhead {f : List Lexeme → Reader β} {q : Reader β}
    (h : ∀ more ls, after more → Spelled (ps ++ more) ls → f ls = q)
    (hq : Reads q ps after told b) : Reads (Reader.lookAhead >>= f) ps after told b := by
  intro more ls hmore hls
  obtain ⟨rest, hrest, hrun⟩ := hq more ls hmore hls
  exact ⟨rest, hrest, by rw [bind_quiet rfl, h more ls hmore hls, hrun]⟩

/-- Looking at the lexemes left, whatever they are. -/
theorem anyLook {f : List Lexeme → Reader β} (h : ∀ ls, Reads (f ls) ps after told b) :
    Reads (Reader.lookAhead >>= f) ps after told b := by
  intro more ls hmore hls
  obtain ⟨rest, hrest, hrun⟩ := h ls more ls hmore hls
  exact ⟨rest, hrest, by rw [bind_quiet rfl, hrun]⟩

/-! ### Single steps -/

theorem skip (ps : List Piece) : Reads (Reader.skip ps.length) ps (fun _ => True) [] () := by
  intro more ls _ hls
  obtain ⟨front, rest, rfl, hfront, hrest⟩ := hls.split
  have hlength : ps.length = front.length := List.Forall₂.length_eq hfront
  exact ⟨rest, hrest, by simp [Reader.skip, hlength]⟩

theorem accept_true {k : TokenKind} {piece : Piece} (h : piece.kind = k) :
    Reads (accept k) [piece] (fun _ => True) [] true := by
  intro more ls _ hls
  cases hls with
  | cons hp hrest => exact ⟨_, hrest, by simp [accept, hp.kind, h]⟩

theorem accept_false (k : TokenKind) :
    Reads (accept k) [] (fun more => kindOf more 0 ≠ some k) [] false := by
  intro more ls hmore hls
  refine ⟨ls, hls, ?_⟩
  rw [List.nil_append] at hls
  have hkind := hls.kindAt 0
  rw [← hkind] at hmore
  cases ls with
  | nil => rfl
  | cons l ls =>
    have hl : l.kind ≠ k := fun hl => hmore (by simp [Lexeme.kindAt, hl])
    simp [accept, hl]

theorem atKind (k : TokenKind) (b : Bool) :
    Reads (Reader.atKind k) [] (fun more => (kindOf more 0 = some k : Bool) = b) [] b := by
  intro more ls hmore hls
  refine ⟨ls, hls, ?_⟩
  rw [List.nil_append] at hls
  simp only [Reader.atKind, hls.kindAt 0]
  rw [hmore]

theorem expect {k : TokenKind} {piece : Piece} (h : piece.kind = k) (e : Expectation) :
    Reads (Reader.expect k e) [piece] (fun _ => True) [] piece.text := by
  intro more ls _ hls
  cases hls with
  | cons hp hrest => exact ⟨_, hrest, by simp [Reader.expect, hp.kind, h, hp.text]⟩

theorem identifier {piece : Piece} (h : piece.kind = .identifier) (e : Expectation) :
    Reads (Reader.identifier e) [piece] (fun _ => True) [] piece.text :=
  expect h e

theorem docHere : Reads Reader.docHere [] (fun _ => True) [] none := by
  intro more ls _ hls
  refine ⟨ls, hls, ?_⟩
  cases hls with
  | nil => rfl
  | cons hp _ => simp [Reader.docHere, hp.doc]

/-- The line of words is asked of their first token. -/
theorem lineHere_append {ws : List Word} (hclean : ∀ w ∈ ws, w.Clean) (hne : ws ≠ []) {n : Nat}
    {f : Nat → Reader β} (h : Reads (f n) (spell ws ++ qs) after told b) :
    Reads (Reader.lineHere >>= f) (spell (onLine n ws) ++ qs) after told b := by
  intro more ls hmore hls
  rw [List.append_assoc] at hls
  obtain ⟨hls', hline⟩ := hls.onLine hclean hne
  rw [← List.append_assoc] at hls'
  obtain ⟨rest, hrest, hrun⟩ := h more ls hmore hls'
  refine ⟨rest, hrest, ?_⟩
  rw [bind_quiet rfl, hline, Option.getD_some, hrun]

theorem lineHere {ws : List Word} (hclean : ∀ w ∈ ws, w.Clean) (hne : ws ≠ []) {n : Nat}
    {f : Nat → Reader β} (h : Reads (f n) (spell ws) after told b) :
    Reads (Reader.lineHere >>= f) (spell (onLine n ws)) after told b := by
  rw [← List.append_nil (spell ws)] at h
  rw [← List.append_nil (spell (JavaModel.onLine n ws))]
  exact lineHere_append hclean hne h

/-! ### Repetitions -/

/-- Each piece is a lexeme, so that as many rounds are left as there are pieces, and one more. -/
theorem recurse {body : (α → Reader β) → α → Reader β} {x : α}
    (h : ∀ n, ps.length < n → Reads (unroll body n x) ps after told b) :
    Reads (Reader.recurse body x) ps after told b := by
  intro more ls hmore hls
  have hlength : (ps ++ more).length = ls.length := List.Forall₂.length_eq hls
  rw [List.length_append] at hlength
  exact h (ls.length + 1) (by omega) more ls hmore hls

variable {ι : Type} {spelled : ι → List Piece} {value : ι → α} {tells : ι → List Event}
variable {afterItem : List Piece → Prop}

/-- Items one after the other, as long as they begin like one. -/
theorem many {starts : List Lexeme → Bool} {item : Reader α} {xs : List ι}
    (hitem : ∀ x ∈ xs, Reads item (spelled x) afterItem (tells x) (value x))
    (hne : ∀ x ∈ xs, spelled x ≠ [])
    (hstarts : ∀ x ∈ xs, ∀ more ls, Spelled (spelled x ++ more) ls → starts ls = true)
    (hstops : ∀ more ls, after more → Spelled more ls → starts ls = false)
    (hafter : ∀ more, after more → afterItem more)
    (hnext : ∀ x ∈ xs, ∀ more, afterItem (spelled x ++ more)) :
    Reads (Reader.many starts item) (xs.flatMap spelled) after (xs.flatMap tells)
      (xs.map value) := by
  refine .recurse fun n hn => ?_
  induction xs generalizing n with
  | nil =>
    match n, hn with
    | n + 1, _ =>
      refine .lookAhead (fun more ls hmore hls => ?_) (.pure [])
      rw [if_neg (by rw [hstops more ls hmore hls]; exact Bool.false_ne_true)]
  | cons x xs ih =>
    match n, hn with
    | n + 1, hn =>
      have hpos := List.length_pos_iff.mpr (hne x List.mem_cons_self)
      rw [List.flatMap_cons, List.length_append] at hn
      rw [List.flatMap_cons, List.flatMap_cons, List.map_cons]
      refine .lookAhead (q := item >>= fun a => unroll (manyBody starts item) n () >>= fun as =>
        pure (a :: as)) (fun more ls _ hls => ?_) ?_
      · rw [List.append_assoc] at hls
        rw [if_pos (hstarts x List.mem_cons_self _ ls hls)]
      · refine (hitem x List.mem_cons_self).bind (.last (ih ?_ ?_ ?_ ?_ n (by omega)) (.pure _)) ?_
        · exact fun y hy => hitem y (List.mem_cons_of_mem _ hy)
        · exact fun y hy => hne y (List.mem_cons_of_mem _ hy)
        · exact fun y hy => hstarts y (List.mem_cons_of_mem _ hy)
        · exact fun y hy => hnext y (List.mem_cons_of_mem _ hy)
        · intro more hmore
          cases xs with
          | nil => exact hafter more hmore
          | cons y ys =>
            rw [List.flatMap_cons, List.append_assoc]
            exact hnext y (List.mem_cons_of_mem _ List.mem_cons_self) _

/-- Items with a separator between each two. -/
theorem separated {k : TokenKind} {sign : Piece} (hsign : sign.kind = k) {item : Reader α}
    {xs : List ι} (hxs : xs ≠ [])
    (hitem : ∀ x ∈ xs, Reads item (spelled x) afterItem [] (value x))
    (hnext : ∀ more, afterItem (sign :: more))
    (hafter : ∀ more, after more → afterItem more ∧ kindOf more 0 ≠ some k) :
    Reads (Reader.separated k item) ([sign].intercalate (xs.map spelled)) after []
      (xs.map value) := by
  refine .recurse fun n hn => ?_
  induction xs generalizing n with
  | nil => exact absurd rfl hxs
  | cons x xs ih =>
    have hx := hitem x List.mem_cons_self
    match n, hn with
    | n + 1, hn =>
      cases xs with
      | nil =>
        simp only [List.map_cons, List.map_nil, List.intercalate_singleton] at hn ⊢
        refine (hx.mono fun more hmore => (hafter more hmore).1).last ?_
        exact (accept_false k).look (fun more hmore => (hafter more hmore).2) (.pure _)
      | cons y ys =>
        rw [List.map_cons, List.map_cons, List.intercalate_cons_cons, ← List.map_cons] at hn ⊢
        rw [List.append_assoc] at hn ⊢
        simp only [List.length_append, List.length_singleton] at hn
        refine hx.quiet (fun more _ => hnext _) ((accept_true hsign).step ?_)
        refine .last (ih (List.cons_ne_nil _ _) ?_ n (by omega)) (.pure _)
        exact fun z hz => hitem z (List.mem_cons_of_mem _ hz)

end Reads

end Reader

end JavaModel
