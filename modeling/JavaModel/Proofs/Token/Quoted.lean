import JavaModel.Proofs.Token.Separation

/-! Where a token between delimiters ends. A string, a text block, a character and a block comment
each end at the first delimiter behind their opening that closes them. Where none closes them, the
reading of the text stops at the opening. -/

namespace JavaModel

open Lexer

/-- The kinds of tokens between delimiters. -/
def TokenKind.isQuoted : TokenKind → Bool
  | string | character | blockComment | docComment => true
  | _ => false

/-- The kinds of tokens between delimiters, and of comments up to the end of their line. -/
def TokenKind.isDelimited (k : TokenKind) : Bool := k.isQuoted || k.isTrivia

/-- A form of token between two delimiters. -/
structure Quotation where
  kinds : List TokenKind
  opening : List Char
  closing : List Char
  /-- The fewest characters between the delimiters. -/
  least : Nat
  /-- Whether a backslash makes a pair with the character behind it. -/
  escapes : Bool
  /-- Whether it ends in the line in which it begins, and a backslash needs an escape there. -/
  inLine : Bool
  /-- The closing delimiter is visible, and no pair begins with it. -/
  marked : closing ≠ [] ∧ closing.head? ≠ some '\\' := by decide
deriving DecidableEq

namespace Quotation

def string : Quotation where
  kinds := [.string]
  opening := ['"']
  closing := ['"']
  least := 0
  escapes := true
  inLine := true

def textBlock : Quotation where
  kinds := [.string]
  opening := ['"', '"', '"']
  closing := ['"', '"', '"']
  least := 0
  escapes := true
  inLine := false

/-- A quote right behind the opening one is the character of the literal and does not close it. -/
def character : Quotation where
  kinds := [.character]
  opening := ['\'']
  closing := ['\'']
  least := 1
  escapes := true
  inLine := true

def comment : Quotation where
  kinds := [.blockComment, .docComment]
  opening := ['/', '*']
  closing := ['*', '/']
  least := 0
  escapes := false
  inLine := false

/-- The token between delimiters that a text begins with, and what follows its opening. -/
def opened? : List Char → Option (Quotation × List Char)
  | '"' :: '"' :: '"' :: cs =>
    if opensTextBlock cs then some (textBlock, cs) else some (string, '"' :: '"' :: cs)
  | '"' :: cs => some (string, cs)
  | '\'' :: cs => some (character, cs)
  | '/' :: '*' :: cs => some (comment, cs)
  | _ => none

/-- Whether a character belongs to a pair of a backslash and the character behind it. Pairs are
counted from the front. -/
def inPair : List Char → Nat → Bool
  | '\\' :: _ :: cs, n =>
    match n with
    | n + 2 => inPair cs n
    | _ => true
  | _ :: cs, n + 1 => inPair cs n
  | _, _ => false

/-- Whether every backslash begins an escape. -/
def escapesKnown : List Char → Bool
  | '\\' :: e :: cs => isEscape e && escapesKnown cs
  | ['\\'] => false
  | _ :: cs => escapesKnown cs
  | [] => true

variable {q : Quotation} {c e : Char} {cs : List Char} {n : Nat}

/-- The closing delimiter stands behind `n` characters, in no pair. -/
def Closes (q : Quotation) (cs : List Char) (n : Nat) : Prop :=
  q.closing <+: cs.drop n ∧ q.least ≤ n ∧ (q.escapes → inPair cs n = false)

/-- The first closing delimiter stands behind `n` characters, and a form that ends in its line has
no line end and no unknown escape before it. -/
structure EndsAt (q : Quotation) (cs : List Char) (n : Nat) : Prop where
  closes : q.Closes cs n
  first : ∀ m < n, ¬ q.Closes cs m
  inLine : q.inLine → ∀ c ∈ cs.take n, isLineEnd c = false
  known : q.inLine → escapesKnown (cs.take n)

/-! ### One character further -/

/-- The form behind `n` of its characters. -/
def behind (q : Quotation) (n : Nat) : Quotation := { q with least := q.least - n }

theorem inPair_cons (hc : c ≠ '\\') (cs : List Char) (n : Nat) :
    inPair (c :: cs) (n + 1) = inPair cs n := by
  rw [inPair.eq_def]
  split
  · rename_i heq
    exact absurd (List.cons.inj heq).1 hc
  · rename_i heq hn
    rw [(List.cons.inj heq).2, Nat.succ.inj hn]
  · rename_i hother
    exact absurd rfl (hother _ _ _ rfl)

theorem escapesKnown_cons (hc : c ≠ '\\') (cs : List Char) :
    escapesKnown (c :: cs) = escapesKnown cs := by
  rw [escapesKnown.eq_def]
  split
  · rename_i heq
    exact absurd (List.cons.inj heq).1 hc
  · rename_i heq
    exact absurd (List.cons.inj heq).1 hc
  · rename_i heq
    rw [(List.cons.inj heq).2]
  · rename_i heq
    cases heq

theorem closes_cons (hc : q.escapes → c ≠ '\\') :
    q.Closes (c :: cs) (n + 1) ↔ (q.behind 1).Closes cs n := by
  have hpair : (q.escapes → inPair (c :: cs) (n + 1) = false) ↔
      (q.escapes → inPair cs n = false) :=
    forall_congr' fun h => by rw [inPair_cons (hc h)]
  simp only [Closes, behind, List.drop_succ_cons, hpair, Nat.sub_le_iff_le_add]

theorem closes_pair (hq : q.escapes) :
    q.Closes ('\\' :: e :: cs) n ↔ ∃ m, n = m + 2 ∧ (q.behind 2).Closes cs m := by
  match n with
  | 0 | 1 => simp [Closes, inPair, hq]
  | n + 2 =>
    simp only [Closes, behind, inPair, List.drop_succ_cons, Nat.sub_le_iff_le_add,
      Nat.add_right_cancel_iff, exists_eq_left']

theorem EndsAt.eq {m : Nat} (h : q.EndsAt cs n) (h' : q.EndsAt cs m) : n = m := by
  rcases Nat.lt_trichotomy n m with hlt | heq | hlt
  · exact absurd h.closes (h'.first n hlt)
  · exact heq
  · exact absurd h'.closes (h.first m hlt)

theorem endsAt_zero (h : q.Closes cs 0) : q.EndsAt cs n ↔ n = 0 := by
  have hzero : q.EndsAt cs 0 := ⟨h, by simp, by simp, by simp [escapesKnown]⟩
  exact ⟨fun hn => hn.eq hzero, fun hn => hn ▸ hzero⟩

theorem endsAt_cons (hopen : ¬ q.Closes (c :: cs) 0) (hc : q.escapes ∨ q.inLine → c ≠ '\\')
    (hline : q.inLine → isLineEnd c = false) :
    q.EndsAt (c :: cs) n ↔ ∃ m, n = m + 1 ∧ (q.behind 1).EndsAt cs m := by
  have hstep : ∀ m, q.Closes (c :: cs) (m + 1) ↔ (q.behind 1).Closes cs m := fun m =>
    closes_cons fun h => hc (.inl h)
  constructor
  · intro h
    cases n with
    | zero => exact absurd h.closes hopen
    | succ n =>
      refine ⟨n, rfl, (hstep n).mp h.closes, fun m hm hclose => ?_, fun hq d hd => ?_, fun hq => ?_⟩
      · exact h.first (m + 1) (Nat.succ_lt_succ hm) ((hstep m).mpr hclose)
      · exact h.inLine hq d (List.mem_cons_of_mem _ hd)
      · have hknown := h.known hq
        rwa [List.take_succ_cons, escapesKnown_cons (hc (.inr hq))] at hknown
  · rintro ⟨n, rfl, h⟩
    refine ⟨(hstep n).mpr h.closes, fun m hm hclose => ?_, fun hq d hd => ?_, fun hq => ?_⟩
    · cases m with
      | zero => exact hopen hclose
      | succ m => exact h.first m (Nat.lt_of_succ_lt_succ hm) ((hstep m).mp hclose)
    · rcases List.mem_cons.mp hd with rfl | hd
      · exact hline hq
      · exact h.inLine hq d hd
    · rw [List.take_succ_cons, escapesKnown_cons (hc (.inr hq))]
      exact h.known hq

theorem endsAt_pair (hq : q.escapes) :
    q.EndsAt ('\\' :: e :: cs) n ↔
      (q.inLine → isEscape e) ∧ ∃ m, n = m + 2 ∧ (q.behind 2).EndsAt cs m := by
  have hstep : ∀ m, q.Closes ('\\' :: e :: cs) m ↔ ∃ k, m = k + 2 ∧ (q.behind 2).Closes cs k :=
    fun m => closes_pair hq
  have hescape : isEscape e → isLineEnd e = false := by
    rw [← Bool.not_eq_true]
    intro hknown hline
    have hcases : e = '\n' ∨ e = '\r' := by simpa [isLineEnd] using hline
    rcases hcases with rfl | rfl <;> exact absurd hknown (by decide)
  constructor
  · intro h
    obtain ⟨n, rfl, hclose⟩ := (hstep _).mp h.closes
    have hknown : q.inLine → isEscape e ∧ escapesKnown (cs.take n) := fun hline => by
      simpa [escapesKnown] using h.known hline
    refine ⟨fun hline => (hknown hline).1, n, rfl, hclose, fun m hm hclose => ?_,
      fun hline d hd => ?_, fun hline => (hknown hline).2⟩
    · exact h.first (m + 2) (by omega) ((hstep _).mpr ⟨m, rfl, hclose⟩)
    · exact h.inLine hline d (by simp [hd])
  · rintro ⟨hknown, n, rfl, h⟩
    refine ⟨(hstep _).mpr ⟨n, rfl, h.closes⟩, fun m hm hclose => ?_, fun hline d hd => ?_,
      fun hline => ?_⟩
    · obtain ⟨k, rfl, hbehind⟩ := (hstep _).mp hclose
      exact h.first k (by omega) hbehind
    · simp only [List.take_succ_cons, List.mem_cons] at hd
      rcases hd with rfl | rfl | hd
      · decide
      · exact hescape (hknown hline)
      · exact h.inLine hline d hd
    · simp only [List.take_succ_cons, escapesKnown, hknown hline, Bool.true_and]
      exact h.known hline

/-- Where the closing delimiter stands first, it closes. -/
theorem closes_zero (q : Quotation) (cs : List Char) :
    q.Closes cs 0 ↔ q.closing <+: cs ∧ q.least = 0 := by
  have hpair : q.closing <+: cs → inPair cs 0 = false := by
    rintro ⟨more, rfl⟩
    obtain ⟨hclosing, hhead⟩ := q.marked
    obtain ⟨d, ds, heq⟩ := List.exists_cons_of_ne_nil hclosing
    have hd : d ≠ '\\' := fun hd => hhead (by rw [heq, hd]; rfl)
    rw [heq, List.cons_append]
    simp [inPair, hd]
  simp only [Closes, List.drop_zero, Nat.le_zero]
  exact ⟨fun h => ⟨h.1, h.2.1⟩, fun h => ⟨h.1, h.2, fun _ => hpair h.1⟩⟩

/-- Nothing closes a token behind the end of the text. -/
theorem not_endsAt_nil : ¬ q.EndsAt [] n := by
  intro h
  have hprefix := h.closes.1
  rw [List.drop_nil, List.prefix_nil] at hprefix
  exact q.marked.1 hprefix

/-! ### The four forms -/

/-- A measure reaches just behind the delimiter that closes a form, or meets a fault where none
does. -/
def Measures (q : Quotation) (cs : List Char) (x : Extent) : Prop :=
  (∃ n, q.EndsAt cs n ∧ x = .whole (n + q.closing.length)) ∨
    (∀ n, ¬ q.EndsAt cs n) ∧ x.fault ≠ none

variable {p : Quotation} {x : Extent} {body : List Char}

theorem measures_close (h : q.closing <+: cs) (hleast : q.least = 0) :
    q.Measures cs (.whole q.closing.length) :=
  .inl ⟨0, (endsAt_zero ((closes_zero q cs).mpr ⟨h, hleast⟩)).mpr rfl, by rw [Nat.zero_add]⟩

theorem measures_shift (front : List Char) {k : Nat}
    (hstep : ∀ n, q.EndsAt (front ++ cs) n ↔ ∃ m, n = m + k ∧ (q.behind k).EndsAt cs m)
    (h : (q.behind k).Measures cs x) : q.Measures (front ++ cs) (x.shift k) := by
  rcases h with ⟨n, hends, rfl⟩ | ⟨hnone, hfault⟩
  · refine .inl ⟨n + k, (hstep _).mpr ⟨n, rfl, hends⟩, ?_⟩
    simp only [Extent.shift, Extent.whole, behind]
    congr 1
    omega
  · refine .inr ⟨fun n hends => ?_, hfault⟩
    obtain ⟨m, -, hbehind⟩ := (hstep n).mp hends
    exact hnone m hbehind

theorem measures_cons (h : p.Measures cs x) (hp : q.behind 1 = p)
    (hopen : ¬ (q.closing <+: c :: cs ∧ q.least = 0)) (hc : q.escapes ∨ q.inLine → c ≠ '\\')
    (hline : q.inLine → isLineEnd c = false) : q.Measures (c :: cs) (x.shift 1) :=
  measures_shift [c]
    (fun _ => endsAt_cons (fun hclose => hopen ((closes_zero q _).mp hclose)) hc hline) (hp ▸ h)

theorem measures_pair (h : p.Measures cs x) (hp : q.behind 2 = p) (hq : q.escapes)
    (he : q.inLine → isEscape e) : q.Measures ('\\' :: e :: cs) (x.shift 2) :=
  measures_shift ['\\', e] (fun _ => (endsAt_pair hq).trans (and_iff_right he)) (hp ▸ h)

theorem measures_nil (hfault : x.fault ≠ none) : q.Measures [] x :=
  .inr ⟨fun _ => not_endsAt_nil, hfault⟩

/-- A backslash at the end of the text closes nothing and covers nothing. -/
theorem measures_backslash (hfault : x.fault ≠ none) : q.Measures ['\\'] x := by
  refine .inr ⟨fun n h => ?_, hfault⟩
  have hprefix := h.closes.1
  cases n with
  | zero =>
    obtain ⟨hclosing, hhead⟩ := q.marked
    obtain ⟨d, ds, heq⟩ := List.exists_cons_of_ne_nil hclosing
    rw [heq, List.drop_zero, List.cons_prefix_cons] at hprefix
    exact hhead (by rw [heq, hprefix.1]; rfl)
  | succ n =>
    rw [List.drop_succ_cons, List.drop_nil, List.prefix_nil] at hprefix
    exact q.marked.1 hprefix

theorem measures_unknown (hq : q.escapes) (hline : q.inLine) (he : ¬ isEscape e)
    (hfault : x.fault ≠ none) : q.Measures ('\\' :: e :: cs) x :=
  .inr ⟨fun _ h => he (((endsAt_pair hq).mp h).1 hline), hfault⟩

theorem measures_lineEnd (hq : q.inLine) (hc : isLineEnd c)
    (hopen : ¬ (q.closing <+: c :: cs ∧ q.least = 0)) (hfault : x.fault ≠ none) :
    q.Measures (c :: cs) x := by
  refine .inr ⟨fun n h => ?_, hfault⟩
  cases n with
  | zero => exact hopen ((closes_zero q _).mp h.closes)
  | succ n =>
    have hfree := h.inLine hq c List.mem_cons_self
    rw [hc] at hfree
    cases hfree

theorem stringBody_measures (cs : List Char) : string.Measures cs (stringBody cs) := by
  induction cs using stringBody.induct with
  | case1 => exact measures_nil (Option.some_ne_none _)
  | case2 => exact measures_backslash (Option.some_ne_none _)
  | case3 e cs he ih =>
    simp only [stringBody, he, if_true]
    exact measures_pair ih rfl rfl fun _ => he
  | case4 e cs he hline | case5 e cs he hline =>
    exact measures_unknown rfl rfl he (by simp [stringBody, he, hline, Extent.broken])
  | case6 cs hend hmore =>
    rw [stringBody_cons (by decide), if_pos rfl]
    exact measures_close (List.prefix_append _ cs) rfl
  | case7 c cs hend hmore hquote hline =>
    rw [stringBody_cons (ne_backslash hend hmore), if_neg hquote, if_pos hline]
    exact measures_lineEnd rfl hline (by simp [string, Ne.symm hquote])
      (Option.some_ne_none _)
  | case8 c cs hend hmore hquote hline ih =>
    have hc := ne_backslash hend hmore
    rw [stringBody_cons hc, if_neg hquote, if_neg hline]
    exact measures_cons ih rfl (by simp [string, Ne.symm hquote]) (fun _ => hc)
      fun _ => by simpa using hline

theorem textBlockBody_measures (cs : List Char) : textBlock.Measures cs (textBlockBody cs) := by
  induction cs using textBlockBody.induct with
  | case1 => exact measures_nil (Option.some_ne_none _)
  | case2 => exact measures_backslash (Option.some_ne_none _)
  | case3 e cs ih => exact measures_pair ih rfl rfl fun h => by cases h
  | case4 cs => exact measures_close (List.prefix_append _ cs) rfl
  | case5 c cs hend hmore hquotes ih =>
    have hc := ne_backslash hend hmore
    rw [textBlockBody_cons hc hquotes]
    refine measures_cons ih rfl ?_ (fun _ => hc) fun h => by cases h
    rintro ⟨⟨more, hmore⟩, -⟩
    obtain ⟨hquote, hrest⟩ := List.cons.inj hmore
    exact hquotes more hquote.symm hrest.symm

theorem not_closes_character {seen : Bool} (hquote : ¬ (c = '\'' && seen)) (cs : List Char) :
    ¬ ((character.behind seen.toNat).closing <+: c :: cs ∧
      (character.behind seen.toNat).least = 0) := by
  rintro ⟨hclosing, hleast⟩
  have hc : '\'' = c := (List.cons_prefix_cons.mp hclosing).1
  cases seen with
  | true => exact hquote (by rw [← hc]; rfl)
  | false => cases hleast

/-- Once a character has been seen, the next quote closes. -/
theorem characterBody_measures (seen : Bool) (cs : List Char) :
    (character.behind seen.toNat).Measures cs (characterBody seen cs) := by
  induction seen, cs using characterBody.induct with
  | case1 => exact measures_nil (Option.some_ne_none _)
  | case2 => exact measures_backslash (Option.some_ne_none _)
  | case3 seen e cs he ih =>
    simp only [characterBody, he, if_true]
    exact measures_pair ih (by cases seen <;> rfl) rfl fun _ => he
  | case4 seen e cs he =>
    exact measures_unknown rfl rfl he (by simp [characterBody, he, Extent.broken])
  | case5 seen c cs hend hmore hquote =>
    rw [characterBody_cons (ne_backslash hend hmore), if_pos hquote]
    obtain ⟨rfl, rfl⟩ : c = '\'' ∧ seen = true := by simpa using hquote
    exact measures_close (List.prefix_append _ cs) rfl
  | case6 seen c cs hend hmore hquote hline =>
    rw [characterBody_cons (ne_backslash hend hmore), if_neg hquote, if_pos hline]
    exact measures_lineEnd rfl hline (not_closes_character hquote cs) (Option.some_ne_none _)
  | case7 seen c cs hend hmore hquote hline ih =>
    have hc := ne_backslash hend hmore
    rw [characterBody_cons hc, if_neg hquote, if_neg hline]
    exact measures_cons ih (by cases seen <;> rfl) (not_closes_character hquote cs) (fun _ => hc)
      fun _ => by simpa using hline

theorem commentBody_measures (cs : List Char) : comment.Measures cs (commentBody cs) := by
  induction cs using commentBody.induct with
  | case1 => exact measures_nil (Option.some_ne_none _)
  | case2 cs => exact measures_close (List.prefix_append _ cs) rfl
  | case3 c cs hclose ih =>
    have hopen : ¬ (comment.closing <+: c :: cs ∧ comment.least = 0) := by
      rintro ⟨⟨more, hmore⟩, -⟩
      obtain ⟨hstar, hrest⟩ := List.cons.inj hmore
      exact hclose more hstar.symm hrest.symm
    rw [commentBody]
    · exact measures_cons ih rfl hopen (by simp [comment]) (by simp [comment])
    · exact hclose

/-! ### Tokens that begin with an opening delimiter -/

theorem opened?_of_quote (cs : List Char) :
    opened? ('"' :: cs) = some (string, cs) ∧ stringLiteral cs = stringBody cs ∨
      ∃ more, cs = '"' :: '"' :: more ∧ opened? ('"' :: cs) = some (textBlock, more) ∧
        stringLiteral cs = (textBlockBody more).shift 2 := by
  by_cases h : ∃ more, cs = '"' :: '"' :: more ∧ opensTextBlock more
  · obtain ⟨more, rfl, hopens⟩ := h
    exact .inr ⟨more, rfl, by simp [opened?, hopens], by simp [stringLiteral, hopens]⟩
  · have hclosed : ∀ more, cs = '"' :: '"' :: more → opensTextBlock more = false := fun _ heq => by
      simpa using fun hopens => h ⟨_, heq, hopens⟩
    refine .inl ⟨?_, stringLiteral_eq_stringBody hclosed⟩
    unfold opened?
    split
    · rename_i heq
      obtain ⟨-, rfl⟩ := List.cons.inj heq
      simp [hclosed _ rfl]
    · rename_i heq
      rw [(List.cons.inj heq).2]
    · rename_i heq
      cases heq
    · rename_i heq
      cases heq
    · rename_i hother _ _
      exact absurd rfl (hother cs)

/-- A token that an opening delimiter begins is of that form, and is measured behind it. -/
theorem lexeme_opened (h : opened? (c :: cs) = some (q, body)) :
    c :: cs = q.opening ++ body ∧ (lexeme c cs).1 ∈ q.kinds ∧
      ∃ x, (lexeme c cs).2 = x.shift q.opening.length ∧ q.Measures body x := by
  by_cases hquote : c = '"'
  · subst hquote
    rw [lexeme_quote]
    rcases opened?_of_quote cs with ⟨hopened, hliteral⟩ | ⟨more, rfl, hopened, hliteral⟩
    · obtain ⟨rfl, rfl⟩ : string = q ∧ cs = body := by simpa [hopened] using h
      exact ⟨rfl, List.mem_cons_self, _, by rw [hliteral]; rfl, stringBody_measures cs⟩
    · obtain ⟨rfl, rfl⟩ : textBlock = q ∧ more = body := by simpa [hopened] using h
      refine ⟨rfl, List.mem_cons_self, textBlockBody more, ?_, textBlockBody_measures more⟩
      rw [hliteral]
      simp only [Extent.shift, textBlock, List.length_cons, List.length_nil]
      congr 1
      omega
  by_cases hapostrophe : c = '\''
  · subst hapostrophe
    obtain ⟨rfl, rfl⟩ : character = q ∧ cs = body := by simpa [opened?] using h
    exact ⟨rfl, List.mem_cons_self, _, rfl, characterBody_measures false cs⟩
  · unfold opened? at h
    split at h
    · rename_i heq; exact absurd (List.cons.inj heq).1 hquote
    · rename_i heq; exact absurd (List.cons.inj heq).1 hquote
    · rename_i heq; exact absurd (List.cons.inj heq).1 hapostrophe
    · rename_i more heq
      obtain ⟨rfl, rfl⟩ := List.cons.inj heq
      obtain ⟨rfl, rfl⟩ : comment = q ∧ more = body := by simpa using h
      rw [lexeme_slash_block]
      refine ⟨rfl, ?_, _, rfl, commentBody_measures more⟩
      unfold commentKind
      split <;> simp [comment]
    · cases h

theorem ofWord_not_isDelimited (word : String) : (TokenKind.ofWord word).isDelimited = false := by
  have hwords : ∀ entry ∈ TokenKind.words, entry.2.isDelimited = false := by decide +kernel
  unfold TokenKind.ofWord
  cases hlookup : TokenKind.words.lookup word with
  | none => rfl
  | some k =>
    obtain ⟨front, rest, heq, -⟩ := List.lookup_eq_some_iff.mp hlookup
    exact hwords (word, k) (by rw [heq]; simp)

theorem sign?_not_isDelimited {kind : TokenKind} (h : sign? c = some kind) :
    kind.isDelimited = false := by
  have hall : (sign? c).any TokenKind.isDelimited = false := by
    simp only [sign?, apply_ite (Option.any TokenKind.isDelimited), Option.any_some,
      Option.any_none, TokenKind.isDelimited, TokenKind.isQuoted, TokenKind.isTrivia,
      Bool.or_self, ite_self]
  simpa [h] using hall

/-- Quotes, and slashes before a slash or a star, begin the tokens of these kinds. -/
theorem lexeme_isDelimited (hkind : (lexeme c cs).1.isDelimited) :
    c = '"' ∨ c = '\'' ∨ c = '/' ∧ (cs.head? = some '/' ∨ cs.head? = some '*') := by
  by_cases hquote : c = '"'
  · exact .inl hquote
  by_cases hapostrophe : c = '\''
  · exact .inr (.inl hapostrophe)
  by_cases hcomment : c = '/' ∧ (cs.head? = some '/' ∨ cs.head? = some '*')
  · exact .inr (.inr hcomment)
  -- Every other character begins a token of another kind.
  suffices hother : (lexeme c cs).1.isDelimited = false by rw [hother] at hkind; cases hkind
  unfold lexeme
  split
  · exact ofWord_not_isDelimited _
  split
  · rfl
  split
  · exact absurd ⟨rfl, .inl rfl⟩ hcomment
  · exact absurd ⟨rfl, .inr rfl⟩ hcomment
  · rfl
  · split <;> rfl
  · rfl
  · rfl
  · split
    · rename_i hsign
      exact sign?_not_isDelimited hsign
    · rfl

/-- Only an opening delimiter begins a token of one of these kinds. -/
theorem opened?_of_isQuoted (hkind : (lexeme c cs).1.isQuoted) :
    ∃ q body, opened? (c :: cs) = some (q, body) := by
  have hdelimited : (lexeme c cs).1.isDelimited := by rw [TokenKind.isDelimited, hkind]; rfl
  rcases lexeme_isDelimited hdelimited with rfl | rfl | ⟨rfl, hhead | hhead⟩
  · rcases opened?_of_quote cs with ⟨hopened, -⟩ | ⟨more, -, hopened, -⟩
    · exact ⟨_, _, hopened⟩
    · exact ⟨_, _, hopened⟩
  · exact ⟨character, cs, rfl⟩
  · obtain ⟨more, rfl⟩ := List.head?_eq_some_iff.mp hhead
    cases hkind
  · obtain ⟨more, rfl⟩ := List.head?_eq_some_iff.mp hhead
    exact ⟨comment, more, rfl⟩

theorem EndsAt.take_add (h : q.EndsAt body n) :
    body.take (n + q.closing.length) = body.take n ++ q.closing := by
  rw [List.take_add, ← List.prefix_iff_eq_take.mp h.closes.1]

/-- A token that an opening delimiter begins has no fault exactly if a delimiter closes it. -/
theorem lexeme_endsAt (h : opened? (c :: cs) = some (q, body)) :
    (∃ n, q.EndsAt body n ∧
      (c :: cs).take (lexeme c cs).2.length = q.opening ++ body.take n ++ q.closing ∧
      (lexeme c cs).2.fault = none) ∨
    (∀ n, ¬ q.EndsAt body n) ∧ (lexeme c cs).2.fault ≠ none := by
  obtain ⟨hopening, -, x, hx, hmeasures⟩ := lexeme_opened h
  rw [hx, hopening]
  rcases hmeasures with ⟨n, hends, rfl⟩ | hnone
  · refine .inl ⟨n, hends, ?_, rfl⟩
    rw [Extent.shift, Extent.whole, List.take_length_add_append, hends.take_add,
      List.append_assoc]
  · exact .inr hnone

theorem opened?_cons {after : List Char} (h : opened? after = some (q, body)) :
    ∃ c cs, after = c :: cs ∧ isSpace c = false := by
  unfold opened? at h
  split at h
  · exact ⟨_, _, rfl, by decide⟩
  · exact ⟨_, _, rfl, by decide⟩
  · exact ⟨_, _, rfl, by decide⟩
  · exact ⟨_, _, rfl, by decide⟩
  · cases h

end Quotation

namespace Lexer

/-! ### Places between tokens -/

theorem gap_cons_inj {gap gap' : List Char} {c c' : Char} {cs cs' : List Char}
    (hgap : ∀ c ∈ gap, isSpace c) (hgap' : ∀ c ∈ gap', isSpace c) (hc : isSpace c = false)
    (hc' : isSpace c' = false) (h : gap ++ c :: cs = gap' ++ c' :: cs') :
    gap = gap' ∧ c = c' ∧ cs = cs' := by
  induction gap generalizing gap' with
  | nil =>
    cases gap' with
    | nil => simpa using h
    | cons d gap' =>
      obtain ⟨rfl, -⟩ := List.cons.inj h
      rw [hgap' c List.mem_cons_self] at hc
      cases hc
  | cons d gap ih =>
    cases gap' with
    | nil =>
      obtain ⟨rfl, -⟩ := List.cons.inj h
      rw [hgap d List.mem_cons_self] at hc'
      cases hc'
    | cons d' gap' =>
      obtain ⟨rfl, hmore⟩ := List.cons.inj h
      obtain ⟨rfl, hc⟩ := ih (fun c hc => hgap c (List.mem_cons_of_mem _ hc))
        (fun c hc => hgap' c (List.mem_cons_of_mem _ hc)) hmore
      exact ⟨rfl, hc⟩

theorem spelling_append_drop {t : Token} {gap : List Char} {c : Char} {cs : List Char} {n : Nat}
    (hgap : t.gap = String.ofList gap) (htext : t.text = String.ofList ((c :: cs).take n)) :
    gap ++ c :: cs = spelling t ++ (c :: cs).drop n := by
  rw [spelling, hgap, htext, String.toList_ofList, String.toList_ofList, List.append_assoc,
    List.take_append_drop]

/-- A reading that has taken some tokens takes the next one where white space ends, or it stops
there. -/
theorem Cuts.next {start : Nat} {cs : List Char} {r : Lexed} (h : Cuts start cs r)
    {front back : List Token} {gap : List Char} {c : Char} {after : List Char}
    (htokens : r.tokens = front ++ back) (hcs : cs = front.flatMap spelling ++ gap ++ c :: after)
    (hgap : ∀ c ∈ gap, isSpace c) (hc : isSpace c = false) :
    (∃ t more, back = t :: more ∧ (lexeme c after).2.fault = none ∧ t.kind = (lexeme c after).1 ∧
      t.text.toList = (c :: after).take (lexeme c after).2.length ∧
      t.start = start + String.utf8Len (front.flatMap spelling ++ gap)) ∨
    (∃ e, back = [] ∧ r.error = some e ∧ (lexeme c after).2.fault = some e.fault ∧
      e.offset = start + String.utf8Len (front.flatMap spelling ++ gap)) := by
  induction h generalizing front with
  | @blank start blank hblank =>
    obtain ⟨rfl, rfl⟩ := List.append_eq_nil_iff.mp htokens.symm
    have hmem : c ∈ blank := by simp [hcs]
    rw [hblank c hmem] at hc
    cases hc
  | @fault start gap' c' cs' e hgap' hc' hfault hoffset hfound =>
    obtain ⟨rfl, rfl⟩ := List.append_eq_nil_iff.mp htokens.symm
    obtain ⟨rfl, rfl, rfl⟩ := gap_cons_inj hgap' hgap hc' hc hcs
    exact .inr ⟨e, rfl, rfl, hfault, hoffset⟩
  | @token start gap' c' cs' t r hgap' hc' hfault hkind htext hblank hstart more ih =>
    cases front with
    | nil =>
      obtain ⟨rfl, rfl, rfl⟩ := gap_cons_inj hgap' hgap hc' hc hcs
      refine .inl ⟨t, r.tokens, htokens.symm, hfault, hkind, ?_, hstart⟩
      rw [htext, String.toList_ofList]
    | cons u front =>
      obtain ⟨rfl, hmore⟩ := List.cons.inj htokens
      have hcut := spelling_append_drop hblank htext
      have hdrop : (c' :: cs').drop (lexeme c' cs').2.length =
          front.flatMap spelling ++ gap ++ c :: after := by
        rw [hcut, List.flatMap_cons, List.append_assoc, List.append_assoc] at hcs
        rw [List.append_cancel_left hcs, List.append_assoc]
      have hstop : t.stop = start + String.utf8Len (spelling t) := by
        rw [Token.stop, hstart, spelling, hblank, htext, String.utf8ByteSize_ofList,
          String.toList_ofList, String.toList_ofList, String.utf8Len_append, Nat.add_assoc]
      rcases ih hmore hdrop with ⟨v, rest, hback, hrest⟩ | ⟨e, hback, hrest⟩
      · refine .inl ⟨v, rest, hback, ?_⟩
        simpa only [hstop, List.flatMap_cons, List.append_assoc, String.utf8Len_append,
          Nat.add_assoc] using hrest
      · refine .inr ⟨e, hback, ?_⟩
        simpa only [hstop, List.flatMap_cons, List.append_assoc, String.utf8Len_append,
          Nat.add_assoc] using hrest

/-- Every token of a reading stands where it has taken the tokens before it. -/
theorem Cuts.place {start : Nat} {cs : List Char} {r : Lexed} (h : Cuts start cs r)
    {front back : List Token} {t : Token} (htokens : r.tokens = front ++ t :: back) :
    ∃ gap c after, cs = front.flatMap spelling ++ gap ++ c :: after ∧ (∀ c ∈ gap, isSpace c) ∧
      isSpace c = false := by
  induction h generalizing front with
  | blank => cases front <;> cases htokens
  | fault => cases front <;> cases htokens
  | @token start gap' c' cs' u r hgap' hc' hfault hkind htext hblank hstart more ih =>
    cases front with
    | nil => exact ⟨gap', c', cs', rfl, hgap', hc'⟩
    | cons v front =>
      obtain ⟨rfl, hmore⟩ := List.cons.inj htokens
      obtain ⟨gap, c, after, hdrop, hplace⟩ := ih hmore
      refine ⟨gap, c, after, ?_, hplace⟩
      rw [spelling_append_drop hblank htext, hdrop, List.flatMap_cons, List.append_assoc,
        List.append_assoc, List.append_assoc]

end Lexer

/-- What is read between delimiters. Each token of such a kind stands where the opening delimiter
of its form stands, and ends at the first delimiter that closes it. Conversely, wherever the
reading of a text comes to an opening delimiter, it takes such a token, unless no delimiter closes
it: then the reading stops there with an error. -/
theorem lex_quoted (text : String) :
    (∀ t ∈ (lex text).tokens, t.kind.isQuoted → ∃ before after q body n,
      text.toList = before ++ after ∧ t.start = String.utf8Len before ∧
      Quotation.opened? after = some (q, body) ∧ t.kind ∈ q.kinds ∧ q.EndsAt body n ∧
      t.text.toList = q.opening ++ body.take n ++ q.closing) ∧
    (∀ front back gap after q body, (lex text).tokens = front ++ back →
      text.toList = front.flatMap Lexer.spelling ++ gap ++ after → (∀ c ∈ gap, Lexer.isSpace c) →
      Quotation.opened? after = some (q, body) →
      (∃ n t more, q.EndsAt body n ∧ back = t :: more ∧ t.kind ∈ q.kinds ∧
        t.text.toList = q.opening ++ body.take n ++ q.closing) ∨
      (∀ n, ¬ q.EndsAt body n) ∧ back = [] ∧ ∃ e, (lex text).error = some e ∧
        e.offset = String.utf8Len (front.flatMap Lexer.spelling ++ gap)) := by
  have hcuts := Lexer.cuts_lex text
  constructor
  · intro t ht hkind
    obtain ⟨front, back, htokens⟩ := List.append_of_mem ht
    obtain ⟨gap, c, after, htext, hgap, hc⟩ := hcuts.place htokens
    rcases hcuts.next htokens htext hgap hc with
      ⟨u, more, hback, hfault, hlexeme, hslice, hstart⟩ | ⟨e, hback, -⟩
    · obtain ⟨rfl, rfl⟩ := List.cons.inj hback
      rw [hlexeme] at hkind
      obtain ⟨q, body, hopened⟩ := Quotation.opened?_of_isQuoted hkind
      obtain ⟨-, hkinds, -⟩ := Quotation.lexeme_opened hopened
      rcases Quotation.lexeme_endsAt hopened with ⟨n, hends, htake, -⟩ | ⟨-, hbroken⟩
      · refine ⟨front.flatMap Lexer.spelling ++ gap, c :: after, q, body, n, htext, ?_, hopened,
          ?_, hends, hslice.trans htake⟩
        · rw [hstart, Nat.zero_add]
        · rwa [hlexeme]
      · exact absurd hfault hbroken
    · cases hback
  · intro front back gap after q body htokens htext hgap hopened
    obtain ⟨c, cs, rfl, hc⟩ := Quotation.opened?_cons hopened
    obtain ⟨-, hkinds, -⟩ := Quotation.lexeme_opened hopened
    rcases Quotation.lexeme_endsAt hopened with ⟨n, hends, htake, hfault⟩ | ⟨hnone, hbroken⟩
    · rcases hcuts.next htokens htext hgap hc with
        ⟨t, more, hback, -, hlexeme, hslice, -⟩ | ⟨e, -, -, hbroken, -⟩
      · exact .inl ⟨n, t, more, hends, hback, by rwa [hlexeme], hslice.trans htake⟩
      · rw [hfault] at hbroken
        cases hbroken
    · rcases hcuts.next htokens htext hgap hc with
        ⟨t, more, -, hfault, -⟩ | ⟨e, hback, herror, -, hoffset⟩
      · exact absurd hfault hbroken
      · exact .inr ⟨hnone, hback, e, herror, by rw [hoffset, Nat.zero_add]⟩

example :
    (lex "\"a\\\"b\" '\\'' ''' /***/ \"\"\"\n\\\"\"\" \"\"\"'").tokens.map (·.text) =
      ["\"a\\\"b\"", "'\\''", "'''", "/***/", "\"\"\"\n\\\"\"\" \"\"\""] := by
  decide +kernel

/-- A character literal does not always end at its first quote outside of pairs: of three quotes the
second one is the character. -/
theorem not_lex_character_first :
    ¬ ∀ text, ∀ t ∈ (lex text).tokens, t.kind = .character → ∃ before body n,
      text.toList = before ++ '\'' :: body ∧ t.start = String.utf8Len before ∧
      { Quotation.character with least := 0 }.EndsAt body n ∧ 0 < n ∧
      t.text.toList = '\'' :: body.take n ++ ['\''] := by
  intro h
  obtain ⟨t, ht, hkind, hstart⟩ :
      ∃ t ∈ (lex "'''").tokens, t.kind = .character ∧ t.start = 0 := by decide +kernel
  obtain ⟨before, body, n, htext, hplace, hends, hn, -⟩ := h "'''" t ht hkind
  obtain rfl : before = [] := by
    cases before with
    | nil => rfl
    | cons c before =>
      have := c.utf8Size_pos
      simp only [String.utf8Len_cons] at hplace
      omega
  obtain rfl : ['\'', '\''] = body := (List.cons.inj htext).2
  have hclose : { Quotation.character with least := 0 }.Closes ['\'', '\''] 0 :=
    (Quotation.closes_zero _ _).mpr ⟨by decide, rfl⟩
  have hzero := (Quotation.endsAt_zero hclose).mp hends
  omega

end JavaModel
