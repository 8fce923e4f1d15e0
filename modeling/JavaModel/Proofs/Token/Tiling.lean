import Mathlib.Data.String.Basic
import JavaModel.Proofs.Token.Run

/-! The tokens of a text tile it. Every token takes a character at least and ends within the text,
so that a reading cuts its text into tokens and the white space before them, in order and without
overlap, up to the end of the text or to the malformed token that stopped it. -/

namespace JavaModel

namespace Text

/-- The text between two byte offsets. -/
def slice (text : String) (start stop : Nat) : String :=
  String.Pos.Raw.extract text ⟨start⟩ ⟨stop⟩

/-- A byte offset at which a character begins or the text ends. -/
def IsBoundary (text : String) (offset : Nat) : Prop := String.Pos.Raw.IsValid text ⟨offset⟩

theorem slice_append (front middle back : List Char) :
    slice (String.ofList (front ++ middle ++ back)) (String.utf8Len front)
      (String.utf8Len front + String.utf8Len middle) = String.ofList middle :=
  String.extract_of_valid front middle back

theorem isBoundary_append (front back : List Char) :
    IsBoundary (String.ofList (front ++ back)) (String.utf8Len front) := by
  apply String.Pos.Raw.isValid_iff_exists_append.mpr
  refine ⟨String.ofList front, String.ofList back, String.ofList_append, ?_⟩
  rw [String.rawEndPos_ofList]

end Text

namespace Lexer

/-! ### How far a token reaches -/

theorem stringBody_le (cs : List Char) : (stringBody cs).length ≤ cs.length := by
  fun_induction stringBody cs with
  | case1 | case2 => simp [Extent.broken]
  | case3 e cs he ih =>
    simp only [Extent.shift, List.length_cons]
    omega
  | case4 | case5 => simp [Extent.broken]
  | case6 => simp [Extent.whole]
  | case7 => simp [Extent.broken]
  | case8 c cs _ _ _ _ ih =>
    simp only [Extent.shift, List.length_cons]
    omega

theorem textBlockBody_le (cs : List Char) : (textBlockBody cs).length ≤ cs.length := by
  fun_induction textBlockBody cs with
  | case1 | case2 => simp [Extent.broken]
  | case3 e cs ih =>
    simp only [Extent.shift, List.length_cons]
    omega
  | case4 => simp [Extent.whole]
  | case5 c cs _ _ _ ih =>
    simp only [Extent.shift, List.length_cons]
    omega

theorem stringLiteral_le (cs : List Char) : (stringLiteral cs).length ≤ cs.length := by
  unfold stringLiteral
  split
  · rename_i cs
    split
    · have := textBlockBody_le cs
      simp only [Extent.shift, List.length_cons]
      omega
    · exact stringBody_le _
  · exact stringBody_le cs

theorem characterBody_le (seen : Bool) (cs : List Char) :
    (characterBody seen cs).length ≤ cs.length := by
  fun_induction characterBody seen cs with
  | case1 | case2 => simp [Extent.broken]
  | case3 seen e cs he ih =>
    simp only [Extent.shift, List.length_cons]
    omega
  | case4 => simp [Extent.broken]
  | case5 => simp [Extent.whole]
  | case6 => simp [Extent.broken]
  | case7 seen c cs _ _ _ _ ih =>
    simp only [Extent.shift, List.length_cons]
    omega

theorem commentBody_le (cs : List Char) : (commentBody cs).length ≤ cs.length := by
  fun_induction commentBody cs with
  | case1 => simp [Extent.broken]
  | case2 => simp [Extent.whole]
  | case3 c cs _ ih =>
    simp only [Extent.shift, List.length_cons]
    omega

/-- A token, malformed or not, takes its first character and ends within the text. -/
theorem lexeme_within (c : Char) (cs : List Char) :
    0 < (lexeme c cs).2.length ∧ (lexeme c cs).2.length ≤ cs.length + 1 := by
  have hnumber := numberLength_le (c :: cs)
  unfold lexeme
  split
  · rename_i hword
    have hpart : isWordPart c := by simp [isWordPart, hword]
    exact ⟨span_pos hpart cs, span_le isWordPart (c :: cs)⟩
  split
  · rename_i hdigit
    exact ⟨numberLength_pos (.inl ⟨c, cs, rfl, hdigit⟩), hnumber⟩
  split
  · have := stringLiteral_le cs
    simp only [Extent.shift]
    omega
  split
  · have := characterBody_le false cs
    simp only [Extent.shift]
    omega
  split
  · simp only [Extent.whole, List.length_cons, Nat.add_le_add_iff_right]
    exact ⟨by omega, span_le _ _⟩
  · simp only [Extent.shift, List.length_cons, Nat.add_comm 2, Nat.add_le_add_iff_right]
    exact ⟨by omega, commentBody_le _⟩
  · simp [Extent.whole]
  · split
    · simp only [Extent.whole]
      exact ⟨numberLength_pos (.inr ⟨_, rfl⟩), hnumber⟩
    · simp [Extent.whole]
  · simp [Extent.whole]
  · simp [Extent.whole]
  · split <;> simp [Extent.whole, Extent.broken]

theorem exists_length_lexeme (c : Char) (cs : List Char) :
    ∃ n, (lexeme c cs).2.length = n + 1 :=
  ⟨_, (Nat.succ_pred_eq_of_pos (lexeme_within c cs).1).symm⟩

/-! ### Readings cut their text -/

/-- A reading that begins at a byte offset cuts characters into white space and tokens: it ends
with white space, or at a malformed token, or goes on behind a token. -/
inductive Cuts : Nat → List Char → Lexed → Prop where
  | blank {start : Nat} {gap : List Char} (hgap : ∀ c ∈ gap, isSpace c) : Cuts start gap ⟨[], none⟩
  | fault {start : Nat} {gap : List Char} {c : Char} {cs : List Char} {e : LexicalError}
      (hgap : ∀ c ∈ gap, isSpace c) (hc : isSpace c = false)
      (hfault : (lexeme c cs).2.fault = some e.fault)
      (hoffset : e.offset = start + String.utf8Len gap)
      (hfound : e.found =
        String.ofList (((c :: cs).take (lexeme c cs).2.length).take shownLength)) :
      Cuts start (gap ++ c :: cs) ⟨[], some e⟩
  | token {start : Nat} {gap : List Char} {c : Char} {cs : List Char} {t : Token} {r : Lexed}
      (hgap : ∀ c ∈ gap, isSpace c) (hc : isSpace c = false)
      (hfault : (lexeme c cs).2.fault = none) (hkind : t.kind = (lexeme c cs).1)
      (htext : t.text = String.ofList ((c :: cs).take (lexeme c cs).2.length))
      (hblank : t.gap = String.ofList gap) (hstart : t.start = start + String.utf8Len gap)
      (more : Cuts t.stop ((c :: cs).drop (lexeme c cs).2.length) r) :
      Cuts start (gap ++ c :: cs) ⟨t :: r.tokens, r.error⟩

/-- A reading cuts what it has not passed yet, the white space that it remembers included. -/
theorem cuts_run {s : State} {cs : List Char} {start : Nat} (hle : s.pending ≤ cs.length)
    (hspace : ∀ c ∈ s.gap, isSpace c) (hgap : s.pending ≠ 0 → s.gap = [])
    (hstart : start + String.utf8Len s.gap = s.offset + String.utf8Len (cs.take s.pending)) :
    Cuts start (s.gap.reverse ++ cs.drop s.pending) (run s cs) := by
  induction cs generalizing s start with
  | nil =>
    rw [List.drop_nil, List.append_nil]
    exact .blank fun c hc => hspace c (List.mem_reverse.mp hc)
  | cons c cs ih =>
    cases hpending : s.pending with
    | succ n =>
      rw [run_pending hpending]
      rw [hpending] at hle hstart
      have hnone := hgap (by omega)
      simp only [List.take_succ_cons, String.utf8Len_cons, hnone, String.utf8Len_nil] at hstart
      have hcut := @ih { s.beyond c with pending := n } start
        (Nat.le_of_succ_le_succ hle) hspace (fun _ => hnone) ?_
      · simpa [State.beyond] using hcut
      · simp only [State.beyond, hnone, String.utf8Len_nil]
        omega
    | zero =>
      rw [hpending] at hstart
      simp only [List.take_zero, String.utf8Len_nil, List.drop_zero] at hstart ⊢
      cases hc : isSpace c with
      | true =>
        rw [run_space hpending hc]
        have hcut := @ih { s.beyond c with gap := c :: s.gap } start
          (by simp [State.beyond, hpending]) ?_ (by simp [State.beyond, hpending]) ?_
        · simpa [State.beyond, hpending] using hcut
        · intro d hd
          rcases List.mem_cons.mp hd with rfl | hd
          · exact hc
          · exact hspace d hd
        · simp only [State.beyond, hpending, List.take_zero, String.utf8Len_cons,
            String.utf8Len_nil]
          omega
      | false =>
        have hblank : ∀ d ∈ s.gap.reverse, isSpace d := fun d hd =>
          hspace d (List.mem_reverse.mp hd)
        have hoffset : s.offset = start + String.utf8Len s.gap.reverse := by
          rw [String.utf8Len_reverse]
          omega
        cases hfault : (lexeme c cs).2.fault with
        | some fault =>
          have hrun : run s (c :: cs) = ⟨[], some ⟨fault, s.offset, s.position, String.ofList
              (((c :: cs).take (lexeme c cs).2.length).take shownLength)⟩⟩ := by
            simp [run, hpending, hc, hfault]
          rw [hrun]
          exact .fault hblank hc hfault hoffset rfl
        | none =>
          obtain ⟨-, hwithin⟩ := lexeme_within c cs
          obtain ⟨n, hn⟩ := exists_length_lexeme c cs
          rw [run_token hpending hc hfault]
          refine .token hblank hc hfault rfl rfl rfl hoffset ?_
          have hcut := @ih (s.begun c cs) (s.token c cs).stop
            (by simp only [State.begun, hn]; omega) (by simp [State.begun])
            (fun _ => rfl) ?_
          · simpa [State.begun, hn] using hcut
          · simp only [State.begun, State.beyond, State.token, Token.stop, hn,
              String.utf8ByteSize_ofList, List.take_succ_cons, String.utf8Len_cons,
              String.utf8Len_nil, Nat.add_sub_cancel]
            omega

/-- The reading of a text cuts it. -/
theorem cuts_lex (text : String) : Cuts 0 text.toList (lex text) :=
  cuts_run (s := ⟨0, 0, ⟨0, 0⟩, []⟩) (Nat.zero_le _) (by simp) (by simp) (by simp)

end Lexer

/-! ### Tilings -/

/-- Only white space between tokens: blanks, tabs, line ends and form feeds. -/
def IsGap (text : String) : Prop := ∀ c ∈ text.toList, Lexer.isSpace c

/-- The byte offset behind the last of some tokens, without tokens `start`. -/
def stopFrom (start : Nat) (ts : List Token) : Nat := (ts.getLast?.map Token.stop).getD start

theorem stopFrom_cons (start : Nat) (t : Token) (ts : List Token) :
    stopFrom start (t :: ts) = stopFrom t.stop ts := by
  cases ts with
  | nil => rfl
  | cons u ts => simp [stopFrom, List.getLast?_cons]

/-- What was read tiles a text from an offset on. Its tokens are non-empty slices of the text, one
behind the other; before each of them, and behind the last one, is white space; and an error stands
behind such a gap and shows what follows it. -/
structure TilesFrom (text : String) (start : Nat) (r : Lexed) : Prop where
  nonempty : ∀ t ∈ r.tokens, t.start < t.stop
  ordered : r.tokens.Pairwise fun t u => t.stop ≤ u.start
  bounded : ∀ t ∈ r.tokens, start ≤ t.start ∧
    Text.IsBoundary text t.start ∧ Text.IsBoundary text t.stop
  sliced : ∀ t ∈ r.tokens, Text.slice text t.start t.stop = t.text
  spaced : ∀ front t back, r.tokens = front ++ t :: back →
    IsGap (Text.slice text (stopFrom start front) t.start)
  ended : r.error = none → IsGap (Text.slice text (stopFrom start r.tokens) text.utf8ByteSize)
  stopped : ∀ e, r.error = some e → stopFrom start r.tokens ≤ e.offset ∧
    Text.IsBoundary text e.offset ∧ IsGap (Text.slice text (stopFrom start r.tokens) e.offset) ∧
    (∃ c ∈ e.found.toList.head?, Lexer.isSpace c = false) ∧ e.found.length ≤ Lexer.shownLength ∧
    Text.slice text e.offset (e.offset + e.found.utf8ByteSize) = e.found

namespace Lexer

theorem isGap_ofList {gap : List Char} (h : ∀ c ∈ gap, isSpace c) : IsGap (String.ofList gap) := by
  simpa [IsGap] using h

/-- No token tiles white space. -/
theorem tilesFrom_blank {before gap : List Char} (hgap : ∀ c ∈ gap, isSpace c) :
    TilesFrom (String.ofList (before ++ gap)) (String.utf8Len before) ⟨[], none⟩ := by
  refine ⟨by simp, .nil, by simp, by simp, by simp, fun _ => ?_, by simp⟩
  have hslice := Text.slice_append before gap []
  rw [List.append_nil] at hslice
  simp only [stopFrom, List.getLast?_nil, Option.map_none, Option.getD_none,
    String.utf8ByteSize_ofList, String.utf8Len_append, hslice]
  exact isGap_ofList hgap

/-- A malformed token stands behind white space. -/
theorem tilesFrom_fault {before gap cs : List Char} {c : Char} {e : LexicalError}
    (hgap : ∀ c ∈ gap, isSpace c) (hc : isSpace c = false)
    (hoffset : e.offset = String.utf8Len before + String.utf8Len gap)
    (hfound : e.found =
      String.ofList (((c :: cs).take (lexeme c cs).2.length).take shownLength)) :
    TilesFrom (String.ofList (before ++ (gap ++ c :: cs))) (String.utf8Len before)
      ⟨[], some e⟩ := by
  refine ⟨by simp, .nil, by simp, by simp, by simp, by simp, ?_⟩
  rintro _ ⟨⟩
  have hslice := Text.slice_append before gap (c :: cs)
  have hbound := Text.isBoundary_append (before ++ gap) (c :: cs)
  simp only [List.append_assoc, String.utf8Len_append] at hslice hbound
  simp only [stopFrom, List.getLast?_nil, Option.map_none, Option.getD_none, hoffset]
  refine ⟨by omega, hbound, ?_, ?_, ?_, ?_⟩
  · rw [hslice]
    exact isGap_ofList hgap
  · obtain ⟨n, hn⟩ := exists_length_lexeme c cs
    exact ⟨c, by simp [hfound, hn, shownLength], hc⟩
  · rw [hfound, String.length_ofList, List.length_take]
    exact Nat.min_le_left _ _
  · -- What is shown is the front of the rest of the text.
    rw [List.take_take] at hfound
    have hshown := Text.slice_append (before ++ gap)
      ((c :: cs).take (min shownLength (lexeme c cs).2.length))
      ((c :: cs).drop (min shownLength (lexeme c cs).2.length))
    rw [List.append_assoc, List.take_append_drop, ← String.utf8ByteSize_ofList
      ((c :: cs).take _), ← hfound, String.utf8Len_append, List.append_assoc] at hshown
    exact hshown

end Lexer

/-- A token in front of what tiles the text behind it. -/
theorem TilesFrom.cons {text : String} {start : Nat} {t : Token} {r : Lexed}
    (hrest : TilesFrom text t.stop r) (hle : start ≤ t.start) (hlt : t.start < t.stop)
    (hstart : Text.IsBoundary text t.start) (hstop : Text.IsBoundary text t.stop)
    (hslice : Text.slice text t.start t.stop = t.text)
    (hgap : IsGap (Text.slice text start t.start)) :
    TilesFrom text start ⟨t :: r.tokens, r.error⟩ where
  nonempty := List.forall_mem_cons.mpr ⟨hlt, hrest.nonempty⟩
  ordered := List.pairwise_cons.mpr ⟨fun u hu => (hrest.bounded u hu).1, hrest.ordered⟩
  bounded := by
    refine List.forall_mem_cons.mpr ⟨⟨hle, hstart, hstop⟩, fun u hu => ?_⟩
    obtain ⟨hbehind, hbounds⟩ := hrest.bounded u hu
    exact ⟨by omega, hbounds⟩
  sliced := List.forall_mem_cons.mpr ⟨hslice, hrest.sliced⟩
  spaced front u back heq := by
    cases front with
    | nil =>
      obtain ⟨rfl, -⟩ := List.cons.inj heq
      exact hgap
    | cons v front =>
      obtain ⟨rfl, hmore⟩ := List.cons.inj heq
      rw [stopFrom_cons]
      exact hrest.spaced front u back hmore
  ended herror := by
    rw [stopFrom_cons]
    exact hrest.ended herror
  stopped e herror := by
    rw [stopFrom_cons]
    exact hrest.stopped e herror

namespace Lexer

theorem Cuts.tilesFrom {start : Nat} {cs : List Char} {r : Lexed} (h : Cuts start cs r)
    (before : List Char) (hstart : String.utf8Len before = start) :
    TilesFrom (String.ofList (before ++ cs)) start r := by
  induction h generalizing before with
  | blank hgap =>
    subst hstart
    exact tilesFrom_blank hgap
  | fault hgap hc _ hoffset hfound =>
    subst hstart
    exact tilesFrom_fault hgap hc hoffset hfound
  | @token start gap c cs t r hgap hc hfault hkind htext hblank hbegin more ih =>
    subst hstart
    have hstop : t.stop = t.start + String.utf8Len ((c :: cs).take (lexeme c cs).2.length) := by
      rw [Token.stop, htext, String.utf8ByteSize_ofList]
    have hlt : t.start < t.stop := by
      obtain ⟨n, hn⟩ := exists_length_lexeme c cs
      have := c.utf8Size_pos
      simp only [hstop, hn, List.take_succ_cons, String.utf8Len_cons]
      omega
    -- The text is cut in front of the token and behind it.
    have hcut : before ++ (gap ++ c :: cs) = before ++ gap ++
        (c :: cs).take (lexeme c cs).2.length ++ (c :: cs).drop (lexeme c cs).2.length := by
      rw [List.append_assoc (before ++ gap), List.take_append_drop, List.append_assoc]
    have hrest := ih (before ++ gap ++ (c :: cs).take (lexeme c cs).2.length) (by
      rw [String.utf8Len_append, String.utf8Len_append, hstop, hbegin])
    have hgapslice := Text.slice_append before gap (c :: cs)
    have hstartbound := Text.isBoundary_append (before ++ gap) (c :: cs)
    have hslice := Text.slice_append (before ++ gap) ((c :: cs).take (lexeme c cs).2.length)
      ((c :: cs).drop (lexeme c cs).2.length)
    have hstopbound := Text.isBoundary_append
      (before ++ gap ++ (c :: cs).take (lexeme c cs).2.length)
      ((c :: cs).drop (lexeme c cs).2.length)
    rw [← hcut] at hrest hslice hstopbound
    simp only [List.append_assoc, String.utf8Len_append, ← hbegin, ← Nat.add_assoc, ← hstop,
      ← htext] at hgapslice hstartbound hslice hstopbound
    exact hrest.cons (by omega) hlt hstartbound hstopbound hslice
      (hgapslice.symm ▸ isGap_ofList hgap)

end Lexer

/-- The tokens of a text tile it: non-empty slices of the text in order, without overlap, on
character boundaries, with nothing but white space around them. A malformed token ends them; its
offset is where the white space behind the last token ends, and what is shown of it stands there. -/
theorem lex_tilesFrom (text : String) : TilesFrom text 0 (lex text) := by
  have h := (Lexer.cuts_lex text).tilesFrom [] rfl
  rwa [List.nil_append, String.ofList_toList] at h

end JavaModel
