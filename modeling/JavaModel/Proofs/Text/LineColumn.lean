import Mathlib.Data.List.Induction
import Mathlib.Data.String.Basic
import JavaModel.Text.Position

/-! Positions count bytes. The line of an offset is the number of line feeds among the bytes before
it, and its column the number of bytes behind the last of them, so that different offsets of a text
have different positions, in the same order. -/

namespace JavaModel

/-- The byte that ends a line. No other character has it in its encoding. -/
def lineFeed : UInt8 := 10

/-- The bytes of a text before an offset. -/
def bytesBefore (text : String) (offset : Nat) : List UInt8 :=
  text.toUTF8.data.toList.take offset

/-- The bytes of a text are those of its characters. -/
theorem bytesBefore_eq (text : String) (offset : Nat) :
    bytesBefore text offset = (text.toList.flatMap String.utf8EncodeChar).take offset := by
  rw [bytesBefore, String.toUTF8_eq_toByteArray, ← String.utf8Encode_toList, List.utf8Encode,
    List.toList_data_toByteArray]

/-- Up to the size of a text, one more byte stands before the next offset. -/
theorem bytesBefore_succ {text : String} {offset : Nat} (h : offset < text.utf8ByteSize) :
    ∃ b, bytesBefore text (offset + 1) = bytesBefore text offset ++ [b] := by
  have hlength : offset < text.toUTF8.data.toList.length := by
    rw [Array.length_toList]
    exact h
  exact ⟨_, (List.take_append_getElem hlength).symm⟩

/-- No character but the line feed has a line feed among its bytes. -/
theorem lineFeed_not_mem {c : Char} (h : c ≠ '\n') : lineFeed ∉ String.utf8EncodeChar c := by
  have hval : c.val.toNat ≠ 10 := fun hval => h (Char.ext (UInt32.toNat_inj.mp hval))
  unfold String.utf8EncodeChar lineFeed
  simp only
  -- A byte of a character of several bytes is 128 at least.
  split_ifs <;>
    simp only [List.mem_cons, List.not_mem_nil, or_false, ← UInt8.toNat_inj, UInt8.toNat_ofNat',
      UInt8.reduceToNat] <;>
    omega

namespace Position

/-- The position behind a byte. -/
def behind (p : Position) (b : UInt8) : Position :=
  if b = lineFeed then ⟨p.line + 1, 0⟩ else ⟨p.line, p.column + 1⟩

/-- The position behind some bytes. -/
def past (p : Position) (bytes : List UInt8) : Position := bytes.foldl behind p

theorem past_append (p : Position) (bs bs' : List UInt8) :
    p.past (bs ++ bs') = (p.past bs).past bs' := List.foldl_append

/-- Bytes that end no line are columns. -/
theorem past_of_not_mem (p : Position) {bytes : List UInt8} (h : lineFeed ∉ bytes) :
    p.past bytes = ⟨p.line, p.column + bytes.length⟩ := by
  induction bytes generalizing p with
  | nil => rfl
  | cons b bytes ih =>
    rw [List.mem_cons, not_or] at h
    obtain ⟨hb, hrest⟩ := h
    have hstep : p.past (b :: bytes) = (p.behind b).past bytes := rfl
    rw [hstep, ih (p.behind b) hrest, behind, if_neg fun heq => hb heq.symm]
    simp only [List.length_cons, mk.injEq, true_and]
    omega

/-- The position behind a character is the one behind its bytes. -/
theorem past_character (p : Position) (c : Char) :
    p.past (String.utf8EncodeChar c) = p.after c := by
  by_cases hc : c = '\n'
  · subst hc
    rfl
  · rw [past_of_not_mem p (lineFeed_not_mem hc), String.length_utf8EncodeChar, after, if_neg hc]

/-- Going on in a text passes its bytes one by one. -/
theorem advance_eq_past (p : Position) (cs : List Char) (offset : Nat) :
    p.advance cs offset = p.past ((cs.flatMap String.utf8EncodeChar).take offset) := by
  induction cs generalizing p offset with
  | nil => simp [advance, past]
  | cons c cs ih =>
    rw [advance, List.flatMap_cons, List.take_append, String.length_utf8EncodeChar]
    by_cases hinside : offset < c.utf8Size
    · have hnone : lineFeed ∉ (String.utf8EncodeChar c).take offset := by
        by_cases hc : c = '\n'
        · -- A line feed is one byte, so that nothing of it is passed.
          subst hc
          obtain rfl : offset = 0 := by simpa [Char.utf8Size] using hinside
          simp
        · exact fun hmem => lineFeed_not_mem hc (List.mem_of_mem_take hmem)
      rw [if_pos hinside, Nat.sub_eq_zero_of_le hinside.le, List.take_zero, List.append_nil,
        past_of_not_mem p hnone, List.length_take, String.length_utf8EncodeChar,
        Nat.min_eq_left hinside.le]
    · have hwhole : (String.utf8EncodeChar c).take offset = String.utf8EncodeChar c :=
        List.take_of_length_le (by rw [String.length_utf8EncodeChar]; omega)
      rw [if_neg hinside, hwhole, past_append, past_character, ih]

theorem ofOffset_eq_past (text : String) (offset : Nat) :
    ofOffset text offset = past ⟨0, 0⟩ (bytesBefore text offset) := by
  rw [ofOffset, advance_eq_past, bytesBefore_eq]

/-- From the beginning of a line, the lines passed are the line feeds, and the column is what is
passed since the last of them. -/
theorem past_lineStart (n : Nat) (bytes : List UInt8) :
    past ⟨n, 0⟩ bytes =
      ⟨n + bytes.count lineFeed, (bytes.reverse.takeWhile (· ≠ lineFeed)).length⟩ := by
  induction bytes using List.reverseRecOn with
  | nil => rfl
  | append_singleton bytes b ih =>
    have hstep : past ⟨n, 0⟩ (bytes ++ [b]) = (past ⟨n, 0⟩ bytes).behind b := past_append _ _ _
    rw [hstep, ih, behind, List.reverse_append, List.count_append]
    by_cases hb : b = lineFeed
    · simp [hb, Nat.add_assoc]
    · simp [hb]

/-- The order of positions: an earlier line, or an earlier column of the same line. -/
def Before (p q : Position) : Prop := p.line < q.line ∨ p.line = q.line ∧ p.column < q.column

theorem Before.trans {p q r : Position} (h : p.Before q) (h' : q.Before r) : p.Before r := by
  unfold Before at *
  omega

theorem not_before_self (p : Position) : ¬ p.Before p := by
  unfold Before
  omega

theorem before_behind (p : Position) (b : UInt8) : p.Before (p.behind b) := by
  unfold behind
  split
  · exact .inl (Nat.lt_succ_self _)
  · exact .inr ⟨rfl, Nat.lt_succ_self _⟩

/-- The next offset of a text has a later position. -/
theorem before_ofOffset_succ {text : String} {offset : Nat} (h : offset < text.utf8ByteSize) :
    (ofOffset text offset).Before (ofOffset text (offset + 1)) := by
  obtain ⟨b, hb⟩ := bytesBefore_succ h
  rw [ofOffset_eq_past text (offset + 1), hb, past_append, ← ofOffset_eq_past]
  exact before_behind _ b

/-- Positions are in the order of their offsets. -/
theorem before_ofOffset {text : String} {m n : Nat} (h : m < n) (hn : n ≤ text.utf8ByteSize) :
    (ofOffset text m).Before (ofOffset text n) := by
  induction n, h using Nat.le_induction with
  | base => exact before_ofOffset_succ hn
  | succ n _ ih => exact (ih (Nat.le_of_succ_le hn)).trans (before_ofOffset_succ hn)

theorem ofOffset_inj {text : String} {m n : Nat} (hm : m ≤ text.utf8ByteSize)
    (hn : n ≤ text.utf8ByteSize) (h : ofOffset text m = ofOffset text n) : m = n := by
  rcases Nat.lt_trichotomy m n with hlt | heq | hlt
  · exact absurd (h ▸ before_ofOffset hlt hn) (not_before_self _)
  · exact heq
  · exact absurd (h ▸ before_ofOffset hlt hm) (not_before_self _)

/-- Behind the end of a text is its end. -/
theorem ofOffset_of_size_le {text : String} {offset : Nat} (h : text.utf8ByteSize ≤ offset) :
    ofOffset text offset = ofOffset text text.utf8ByteSize := by
  have hlength : text.toUTF8.data.toList.length = text.utf8ByteSize := Array.length_toList
  have hall (n : Nat) (hn : text.utf8ByteSize ≤ n) : bytesBefore text n = text.toUTF8.data.toList :=
    List.take_of_length_le (hlength.trans_le hn)
  rw [ofOffset_eq_past, ofOffset_eq_past, hall offset h, hall _ (Nat.le_refl _)]

end Position

end JavaModel
