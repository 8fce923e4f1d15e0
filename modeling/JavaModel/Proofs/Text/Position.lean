import Mathlib.Data.String.Basic
import JavaModel.Text.Position

/-! Positions by line starts. The line of an offset is the last that begins at it or before it, and
its column is counted from where that line begins. -/

namespace JavaModel

/-- The offsets behind the line feeds of a text that begins at an offset. -/
def lineStartsFrom (start : Nat) : List Char → List Nat
  | [] => []
  | c :: cs =>
    if c = '\n' then (start + c.utf8Size) :: lineStartsFrom (start + c.utf8Size) cs
    else lineStartsFrom (start + c.utf8Size) cs

/-- The offsets at which the lines of a text begin. -/
def lineStarts (text : String) : List Nat := 0 :: lineStartsFrom 0 text.toList

theorem le_of_mem_lineStartsFrom {start n : Nat} {cs : List Char}
    (h : n ∈ lineStartsFrom start cs) : start < n := by
  induction cs generalizing start with
  | nil => cases h
  | cons c cs ih =>
    have hpos := c.utf8Size_pos
    unfold lineStartsFrom at h
    split at h
    · rcases List.mem_cons.mp h with rfl | h
      · omega
      · have := ih h
        omega
    · have := ih h
      omega

namespace Position

/-- From a position whose line begins at `begin`, the lines that begin up to the offset are counted,
and the column is counted from where the last of them begins. -/
theorem advance_spec (p : Position) (cs : List Char) (offset start begin : Nat)
    (hstart : begin + p.column = start) :
    ∃ k, (p.advance cs offset).line = p.line + k ∧
      k = (lineStartsFrom start cs).countP (· ≤ start + min offset (String.utf8Len cs)) ∧
      ∃ s, (begin :: lineStartsFrom start cs)[k]? = some s ∧
        s + (p.advance cs offset).column = start + min offset (String.utf8Len cs) := by
  induction cs generalizing p offset start begin with
  | nil => exact ⟨0, rfl, rfl, begin, rfl, by simp [advance, hstart]⟩
  | cons c cs ih =>
    have hlen : String.utf8Len (c :: cs) = String.utf8Len cs + c.utf8Size := by simp
    unfold advance
    by_cases hinside : offset < c.utf8Size
    · -- The offset lies within the first character, before all further line starts.
      have hmin : min offset (String.utf8Len (c :: cs)) = offset := by omega
      have hnone : (lineStartsFrom start (c :: cs)).countP (· ≤ start + offset) = 0 := by
        rw [List.countP_eq_zero]
        intro n hn
        have : start + c.utf8Size ≤ n := by
          unfold lineStartsFrom at hn
          split at hn
          · rcases List.mem_cons.mp hn with rfl | hn
            · exact Nat.le_refl _
            · exact Nat.le_of_lt (le_of_mem_lineStartsFrom hn)
          · exact Nat.le_of_lt (le_of_mem_lineStartsFrom hn)
        simp only [decide_eq_true_eq]
        omega
      rw [if_pos hinside, hmin]
      exact ⟨0, rfl, hnone.symm, begin, rfl, by simp only; omega⟩
    · rw [if_neg hinside]
      have hmin : start + min offset (String.utf8Len (c :: cs)) =
          start + c.utf8Size + min (offset - c.utf8Size) (String.utf8Len cs) := by omega
      rw [hmin]
      by_cases hc : c = '\n'
      · obtain ⟨k, hline, hk, s, hs, hcolumn⟩ := ih (p.after c) (offset - c.utf8Size)
          (start + c.utf8Size) (start + c.utf8Size) (by simp [after, hc])
        refine ⟨k + 1, ?_, ?_, s, ?_, hcolumn⟩
        · rw [hline, after, if_pos hc]
          simp only
          omega
        · rw [lineStartsFrom, if_pos hc, List.countP_cons_of_pos (by simp), ← hk]
        · rw [lineStartsFrom, if_pos hc, List.getElem?_cons_succ, hs]
      · obtain ⟨k, hline, hk, s, hs, hcolumn⟩ := ih (p.after c) (offset - c.utf8Size)
          (start + c.utf8Size) begin (by simp [after, hc]; omega)
        rw [lineStartsFrom, if_neg hc]
        refine ⟨k, ?_, hk, s, hs, hcolumn⟩
        rw [hline, after, if_neg hc]

/-- One line at least begins at an offset or before it. The line of the offset is the last of
these, and its column is what is left of the offset there. -/
theorem ofOffset_spec (text : String) (offset : Nat) :
    (ofOffset text offset).line + 1 =
        (lineStarts text).countP (· ≤ min offset text.utf8ByteSize) ∧
      ∃ s, (lineStarts text)[(ofOffset text offset).line]? = some s ∧
        s + (ofOffset text offset).column = min offset text.utf8ByteSize := by
  obtain ⟨k, hline, hk, s, hs, hcolumn⟩ :=
    advance_spec ⟨0, 0⟩ text.toList offset 0 0 rfl
  have hsize : String.utf8Len text.toList = text.utf8ByteSize := by
    rw [← String.utf8ByteSize_ofList, String.ofList_toList]
  rw [hsize] at hk hcolumn
  simp only [Nat.zero_add] at hline hk hcolumn
  unfold ofOffset
  refine ⟨?_, s, ?_, hcolumn⟩
  · rw [lineStarts, List.countP_cons_of_pos (by simp), hline, hk]
  · rw [hline]
    exact hs

end Position

end JavaModel
