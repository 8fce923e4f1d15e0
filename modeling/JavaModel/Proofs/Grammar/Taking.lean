import JavaModel.Proofs.Grammar.Fronts
import JavaModel.Proofs.Grammar.Reading
import JavaModel.Proofs.Grammar.Reread

/-! What readers take. Of lexemes whose braces and parentheses nest a reader takes such as nest
themselves, and outside all of these it passes a word that begins a declaration only where it tells a
class. Where an expression ends is found by a count of brackets of all kinds, so that expressions
nest only if the events that tell them say so. -/

namespace JavaModel

/-- The classes, interfaces and enums that begin outside all others among events behind which
`depth` others are open. -/
def outermostClasses (depth : Nat) : List Event → Nat
  | [] => 0
  | .beginClass c :: es =>
    (if depth = 0 ∧ c.kind ≠ .recordType then 1 else 0) + outermostClasses (depth + 1) es
  | .endClass :: es => outermostClasses (depth - 1) es
  | _ :: es => outermostClasses depth es

/-- The expressions that an event tells: what a field is set to, and the default value of a method.
The arguments of an enum constant are none. -/
def Event.expressions : Event → List String
  | .beginField f => if f.isEnumConstant then [] else f.initializer.toList
  | .beginMethod m => m.defaultValue.toList
  | _ => []

namespace Grammar

open Reader Lexeme

/-- In the expressions that events tell, braces and parentheses nest. -/
def ExpressionsNest (told : List Event) : Prop :=
  ∀ e ∈ told, ∀ raw ∈ e.expressions, Nested (lexemes raw)

instance (told : List Event) : Decidable (ExpressionsNest told) :=
  inferInstanceAs (Decidable (∀ e ∈ told, ∀ raw ∈ e.expressions, Nested (lexemes raw)))

variable {α β : Type} {ls : List Lexeme}

/-! ### What a reader takes -/

/-- Lexemes at the end of a text, with the closings of what was opened before them. -/
structure Tidy (ls : List Lexeme) : Prop where
  closes : ∃ awaited, Closes awaited ls
  place : ∃ text, ls <:+ lexemes text

theorem Tidy.tail {l : Lexeme} (h : Tidy (l :: ls)) : Tidy ls :=
  have ⟨_, hcloses⟩ := h.closes
  have ⟨text, hplace⟩ := h.place
  ⟨hcloses.tail, text, (List.suffix_cons l ls).trans hplace⟩

theorem Tidy.behind {taken : List Lexeme} (h : Tidy (taken ++ ls)) : Tidy ls := by
  induction taken with
  | nil => exact h
  | cons l taken ih => exact ih h.tail

/-- A reader that succeeds on tidy lexemes takes some of them from the front. If all expressions
told nest, these lexemes and what is told of them have a property. -/
def Takes (ls : List Lexeme) (p : Reader α) (C : List Event → List Lexeme → Prop) : Prop :=
  ∀ told a rest, Tidy ls → p ls = (told, .ok (a, rest)) → ExpressionsNest told →
    ∃ taken, ls = taken ++ rest ∧ C told taken

variable {C D E : List Event → List Lexeme → Prop}

theorem Takes.mono {p : Reader α} (h : Takes ls p C) (hCD : ∀ t x, C t x → D t x) :
    Takes ls p D := by
  intro told a rest htidy hrun hnest
  obtain ⟨taken, hls, hC⟩ := h told a rest htidy hrun hnest
  exact ⟨taken, hls, hCD _ _ hC⟩

theorem Takes.bind {p : Reader α} {f : α → Reader β} (hp : Takes ls p C)
    (hf : ∀ told a taken rest, ls = taken ++ rest → C told taken → Takes rest (f a) D)
    (h : ∀ t x t' x', C t x → D t' x' → E (t ++ t') (x ++ x')) : Takes ls (p >>= f) E := by
  intro told b rest htidy hrun hnest
  obtain ⟨first, a, middle, more, hfirst, hmore, rfl⟩ := bind_ok hrun
  obtain ⟨hnest, hnest'⟩ := List.forall_mem_append.mp hnest
  obtain ⟨taken, rfl, hC⟩ := hp _ _ _ htidy hfirst hnest
  obtain ⟨taken', rfl, hD⟩ := hf first a taken middle rfl hC _ _ _ htidy.behind hmore hnest'
  exact ⟨taken ++ taken', (List.append_assoc ..).symm, h _ _ _ _ hC hD⟩

/-- A reader and then one of which the same is known behind any lexemes. -/
theorem Takes.andThen {p : Reader α} {f : α → Reader β} (hp : Takes ls p C)
    (h : ∀ t x t' x', C t x → D t' x' → E (t ++ t') (x ++ x'))
    (hf : ∀ a rest, Takes rest (f a) D) : Takes ls (p >>= f) E :=
  hp.bind (fun _ a _ rest _ _ => hf a rest) h

theorem Takes.ite {c : Prop} [Decidable c] {p q : Reader α} (hp : c → Takes ls p C)
    (hq : ¬c → Takes ls q C) : Takes ls (if c then p else q) C := by
  split
  · exact hp ‹_›
  · exact hq ‹_›

theorem takes_fail (e : Expectation) : Takes ls (fail e : Reader α) C := by
  rintro told a rest - ⟨⟩

/-- A reader that takes nothing and tells nothing goes before another. -/
theorem takes_see {p : Reader α} {f : α → Reader β} {a : α} (hp : p ls = ([], .ok (a, ls)))
    (h : Takes ls (f a) C) : Takes ls (p >>= f) C := fun told b rest htidy hrun =>
  h told b rest htidy (by rwa [bind_quiet hp] at hrun)

theorem takes_look {f : List Lexeme → Reader α} (h : Takes ls (f ls) C) :
    Takes ls (lookAhead >>= f) C := takes_see rfl h

theorem takes_ifAtKind {k : TokenKind} {p q : Reader α}
    (hp : kindAt ls 0 = some k → Takes ls p C) (hq : Takes ls q C) :
    Takes ls (atKind k >>= fun b => if b then p else q) C := by
  refine takes_see rfl ?_
  by_cases hk : kindAt ls 0 = some k
  · rw [decide_eq_true hk, if_pos rfl]
    exact hp hk
  · rw [decide_eq_false hk, if_neg Bool.false_ne_true]
    exact hq

/-- A reader behind which a value is made. -/
theorem Takes.last {p : Reader α} (hp : Takes ls p C) (f : α → β) :
    Takes ls (p >>= fun a => pure (f a)) C := by
  have hpure (a : α) (rest : List Lexeme) :
      Takes rest (pure (f a)) (fun told taken => told = [] ∧ taken = []) := by
    rintro told b rest - ⟨⟩ -
    exact ⟨[], rfl, rfl, rfl⟩
  refine hp.andThen ?_ hpure
  rintro t x _ _ h ⟨rfl, rfl⟩
  rwa [List.append_nil, List.append_nil]

/-- A property that a body passes on at certain lexemes holds at every depth. -/
theorem Takes.recurse_at {A : α → List Lexeme → Prop} {body : (α → Reader β) → α → Reader β}
    (hbody : ∀ self, (∀ a ls, A a ls → Takes ls (self a) C) →
      ∀ a ls, A a ls → Takes ls (body self a) C)
    (a : α) (ls : List Lexeme) (hls : A a ls) : Takes ls (recurse body a) C := by
  intro told b rest htidy hrun
  exact unroll_induction (P := fun a p => ∀ ls, A a ls → Takes ls p C)
    (fun _ _ _ => takes_fail _) hbody (ls.length + 1) a ls hls told b rest htidy hrun

theorem Takes.recurse {body : (α → Reader β) → α → Reader β}
    (hbody : ∀ self, (∀ a ls, Takes ls (self a) C) → ∀ a ls, Takes ls (body self a) C) (a : α)
    (ls : List Lexeme) : Takes ls (recurse body a) C :=
  Takes.recurse_at (A := fun _ _ => True)
    (fun self hself a ls _ => hbody self (fun a ls => hself a ls trivial) a ls) a ls trivial

/-! ### Parts of a text -/

/-- Inside a class: braces and parentheses nest, and the classes that begin have ended. -/
structure Inside (told : List Event) (taken : List Lexeme) : Prop where
  nested : Nested taken
  ended : ∀ depth more, outermostClasses (depth + 1) (told ++ more) =
    outermostClasses (depth + 1) more

/-- Outside all classes, braces and parentheses: so many classes are told, and so many words that
begin a declaration are taken. -/
structure Outside (classes words : Nat) (told : List Event) (taken : List Lexeme) : Prop
    extends Inside told taken where
  classes : ∀ more, outermostClasses 0 (told ++ more) = classes + outermostClasses 0 more
  words : outerWords 0 0 (taken.map kind) = words

/-- No class is told, and no word that begins a declaration is taken outside all braces and
parentheses. -/
abbrev Quiet : List Event → List Lexeme → Prop := Outside 0 0

theorem Inside.append {told told' : List Event} {taken taken' : List Lexeme}
    (h : Inside told taken) (h' : Inside told' taken') : Inside (told ++ told') (taken ++ taken') :=
  ⟨h.nested.append h'.nested, fun depth more => by rw [List.append_assoc, h.ended, h'.ended]⟩

/-- The words outside are those of one run and then those of another one. -/
theorem words_append {taken taken' : List Lexeme} (h : Nested taken) :
    outerWords 0 0 ((taken ++ taken').map kind) =
      outerWords 0 0 (taken.map kind) + outerWords 0 0 (taken'.map kind) := by
  rw [List.map_append]
  exact outerWords_append h _

theorem Outside.append {m n m' n' : Nat} {told told' : List Event} {taken taken' : List Lexeme}
    (h : Outside m n told taken) (h' : Outside m' n' told' taken') :
    Outside (m + m') (n + n') (told ++ told') (taken ++ taken') := by
  refine ⟨h.toInside.append h'.toInside, fun more => ?_, ?_⟩
  · rw [List.append_assoc, h.classes, h'.classes, Nat.add_assoc]
  · rw [words_append h.nested, h.words, h'.words]

theorem Outside.after_quiet {m n : Nat} (t : List Event) (x : List Lexeme) (t' : List Event)
    (x' : List Lexeme) (h : Quiet t x) (h' : Outside m n t' x') :
    Outside m n (t ++ t') (x ++ x') := by
  have happend := h.append h'
  rwa [Nat.zero_add, Nat.zero_add] at happend

theorem quiet_nil : Quiet [] [] := ⟨⟨nested_nil, by simp⟩, by simp, rfl⟩

/-- Lexemes that are neither braces nor parentheses. -/
theorem outside_flat {front : List Lexeme}
    (h : ∀ l ∈ front, opened? l.kind = none ∧ closed? l.kind = none) :
    Outside 0 (front.countP (isDeclaring ·.kind)) [] front := by
  refine ⟨⟨nested_flat h, by simp⟩, by simp, ?_⟩
  induction front with
  | nil => rfl
  | cons l front ih =>
    obtain ⟨⟨hopen, hclose⟩, hfront⟩ := List.forall_mem_cons.mp h
    rw [List.map_cons, outerWords_cons hopen hclose, ih hfront, List.countP_cons, Nat.add_comm]
    simp

theorem quiet_plain {front : List Lexeme} (h : ∀ l ∈ front, isPlain l.kind) : Quiet [] front := by
  simp only [isPlain, Bool.and_eq_true, Option.isNone_iff_eq_none, Bool.not_eq_eq_eq_not,
    Bool.not_true] at h
  have hflat := outside_flat fun l hl => (h l hl).1
  rwa [List.countP_eq_zero.mpr fun l hl => by simp [(h l hl).2]] at hflat

theorem quiet_singleton {l : Lexeme} (h : isPlain l.kind) : Quiet [] [l] :=
  quiet_plain (List.forall_mem_singleton.mpr h)

/-- What stands between two brackets is out of sight. -/
theorem quiet_enclosed {o close : Lexeme} {inner : List Lexeme} {b : Bracket}
    (ho : o.kind = b.opening) (hinner : Nested inner) (hclose : close.kind = b.closing) :
    Quiet [] (o :: (inner ++ [close])) :=
  ⟨⟨hinner.enclose ho hclose, by simp⟩, by simp, outerWords_enclosed ho hinner hclose⟩

/-! ### Single steps -/

theorem takes_pure (a : α) : Takes ls (pure a) Quiet := by
  rintro told b rest - ⟨⟩ -
  exact ⟨[], rfl, quiet_nil⟩

theorem takes_docHere : Takes ls docHere Quiet := by
  rintro told b rest - ⟨⟩ -
  exact ⟨[], rfl, quiet_nil⟩

theorem takes_lineHere : Takes ls lineHere Quiet := by
  rintro told b rest - ⟨⟩ -
  exact ⟨[], rfl, quiet_nil⟩

theorem takes_skip {front rest : List Lexeme} {n : Nat} (hn : front.length = n)
    (h : ∀ l ∈ front, isPlain l.kind) : Takes (front ++ rest) (skip n) Quiet := by
  rintro told b rest' - hrun -
  rw [skip, ← hn, List.drop_left] at hrun
  cases hrun
  exact ⟨front, rfl, quiet_plain h⟩

theorem takes_skip_one {l : Lexeme} (h : isPlain l.kind) : Takes (l :: ls) (skip 1) Quiet :=
  @takes_skip [l] ls 1 rfl (by simpa using h)

/-- A reader behind a lexeme that is no brace and no parenthesis. -/
theorem takes_behind {l : Lexeme} {p : Reader α} (h : isPlain l.kind)
    (hC : ∀ t x t' x', Quiet t x → C t' x' → C (t ++ t') (x ++ x')) (hp : Takes ls p C) :
    Takes (l :: ls) (skip 1 >>= fun _ => p) C := by
  intro told a rest htidy hrun hnest
  have hskip : skip 1 (l :: ls) = ([], .ok ((), ls)) := rfl
  rw [bind_quiet hskip] at hrun
  obtain ⟨taken, rfl, htaken⟩ := hp told a rest htidy.tail hrun hnest
  exact ⟨l :: taken, rfl, hC [] [l] told taken (quiet_singleton h) htaken⟩

theorem takes_accept {k : TokenKind} (hk : isPlain k) : Takes ls (accept k) Quiet := by
  rintro told b rest - hrun -
  unfold accept at hrun
  split at hrun
  · split at hrun
    · rename_i l rest hl
      cases hrun
      exact ⟨[l], rfl, quiet_singleton (hl ▸ hk)⟩
    · cases hrun
      exact ⟨[], rfl, quiet_nil⟩
  · cases hrun
    exact ⟨[], rfl, quiet_nil⟩

theorem takes_expect {k : TokenKind} (hk : isPlain k) (e : Expectation) :
    Takes ls (expect k e) Quiet := by
  rintro told text rest - hrun -
  obtain ⟨rfl, l, rfl, hl, -⟩ := expect_ok hrun
  exact ⟨[l], rfl, quiet_singleton (hl ▸ hk)⟩

theorem takes_identifier (e : Expectation) : Takes ls (identifier e) Quiet := takes_expect rfl e

/-- Raw text between brackets is out of sight, and the closing bracket ends it. -/
theorem takes_group {b : Bracket} (h : kindAt ls 0 = some b.opening) :
    Takes ls (enclosed b) fun told taken =>
      Quiet told taken ∧ ∃ l ∈ taken.getLast?, l.kind = b.closing := by
  rintro told text rest htidy hrun -
  obtain ⟨rfl, o, inner, close, rfl, hsplit, hclose, -⟩ := enclosed_ok hrun
  have ho : o.kind = b.opening := by simpa [kindAt] using h
  obtain ⟨awaited, hcloses⟩ := htidy.closes
  have hcloses := (closes_open ho).mp hcloses
  have hinner : Nested inner := @closes_splitClosing _ [] _ _ _ _ _ hcloses hsplit
  exact ⟨o :: (inner ++ [close]), by simp, quiet_enclosed ho hinner hclose,
    close, List.getLast?_concat (l := o :: inner), hclose⟩

theorem takes_enclosed {b : Bracket} (h : kindAt ls 0 = some b.opening) :
    Takes ls (enclosed b) Quiet := (takes_group h).mono fun _ _ h => h.1

/-- What each item of a repetition takes, the repetition takes. -/
theorem takes_many {starts : List Lexeme → Bool} {item : Reader α} (hnil : C [] [])
    (happend : ∀ t x t' x', C t x → C t' x' → C (t ++ t') (x ++ x'))
    (h : ∀ ls, starts ls → Takes ls item C) : Takes ls (many starts item) C := by
  refine Takes.recurse (fun self hself _ ls => takes_look (.ite (fun hstarts => ?_) fun _ => ?_))
    () ls
  · refine (h ls hstarts).andThen happend fun a rest => ?_
    exact (hself () rest).last fun as => a :: as
  · rintro told b rest - ⟨⟩ -
    exact ⟨[], rfl, hnil⟩

theorem takes_separated {separator : TokenKind} (hk : isPlain separator) {item : Reader α}
    (h : ∀ ls, Takes ls item Quiet) : Takes ls (separated separator item) Quiet := by
  refine Takes.recurse (fun self hself _ ls => (h ls).andThen Outside.after_quiet
    fun a rest => ?_) () ls
  refine (takes_accept hk).andThen Outside.after_quiet fun b rest => .ite (fun _ => ?_) fun _ =>
    takes_pure _
  exact (hself () rest).andThen Outside.after_quiet fun _ _ => takes_pure _

/-- Lexemes up to one of a kind, with a property of those before it. -/
def Upto (k : TokenKind) (C : List Event → List Lexeme → Prop) (told : List Event)
    (taken : List Lexeme) : Prop :=
  ∃ inner close, taken = inner ++ [close] ∧ close.kind = k ∧ C told inner

theorem Upto.after {k : TokenKind}
    (happend : ∀ t x t' x', C t x → D t' x' → D (t ++ t') (x ++ x')) (t : List Event)
    (x : List Lexeme) (t' : List Event) (x' : List Lexeme) (h : C t x) (h' : Upto k D t' x') :
    Upto k D (t ++ t') (x ++ x') := by
  obtain ⟨inner, close, rfl, hclose, hD⟩ := h'
  exact ⟨x ++ inner, close, (List.append_assoc ..).symm, hclose, happend _ _ _ _ h hD⟩

theorem takes_upto {k : TokenKind} (e : Expectation) (hC : C [] []) :
    Takes ls (expect k e) (Upto k C) := by
  rintro told text rest - hrun -
  obtain ⟨rfl, l, rfl, hl, -⟩ := expect_ok hrun
  exact ⟨[l], rfl, [], l, rfl, hl, hC⟩

/-- Two readers, one for behind a lexeme of a kind and one for when that does not stand next. -/
theorem takes_ifAccept {k : TokenKind} {p q : Reader α}
    (hCD : ∀ l told taken, l.kind = k → C told taken → D told (l :: taken))
    (hp : ∀ rest, Takes rest p C) (hq : Takes ls q D) :
    Takes ls (accept k >>= fun b => if b then p else q) D := by
  have hno (h : accept k ls = ([], .ok (false, ls))) :
      Takes ls (accept k >>= fun b => if b then p else q) D := takes_see h hq
  match ls with
  | [] => exact hno rfl
  | l :: ls =>
    by_cases hl : l.kind = k
    · intro told a rest htidy hrun hnest
      have haccept : accept k (l :: ls) = ([], .ok (true, ls)) := if_pos hl
      rw [bind_quiet haccept, if_pos rfl] at hrun
      obtain ⟨taken, rfl, hC⟩ := hp ls told a rest htidy.tail hrun hnest
      exact ⟨l :: taken, rfl, hCD l told taken hl hC⟩
    · exact hno (if_neg hl)

/-- A bracket and what stands behind it up to the one that closes it. -/
theorem takes_block {b : Bracket} {e : Expectation} {p : Reader α}
    (hD : ∀ o inner close told, o.kind = b.opening → close.kind = b.closing → C told inner →
      D told (o :: (inner ++ [close])))
    (hp : ∀ rest, Takes rest p (Upto b.closing C)) :
    Takes ls (expect b.opening e >>= fun _ => p) D := by
  have hopening : Takes ls (expect b.opening e)
      (fun told taken => told = [] ∧ ∃ o, taken = [o] ∧ o.kind = b.opening) := by
    rintro told text rest - hrun -
    obtain ⟨rfl, o, rfl, ho, -⟩ := expect_ok hrun
    exact ⟨[o], rfl, rfl, o, rfl, ho⟩
  refine hopening.andThen ?_ fun _ rest => hp rest
  rintro _ _ told _ ⟨rfl, o, rfl, ho⟩ ⟨inner, close, rfl, hclose, hC⟩
  exact hD o inner close told ho hclose hC

end Grammar

end JavaModel
