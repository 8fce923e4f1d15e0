/-!
Classes of characters given as ranges of code points.
-/

namespace JavaModel.Text

/-- The first and the last code point of a run. -/
abbrev CodeRange := Nat × Nat

/-- Whether one of the ranges holds the character. -/
def covers (ranges : List CodeRange) (c : Char) : Bool :=
  ranges.any fun r => r.1 ≤ c.toNat && c.toNat ≤ r.2

theorem covers_iff {ranges : List CodeRange} {c : Char} :
    covers ranges c = true ↔ ∃ r ∈ ranges, r.1 ≤ c.toNat ∧ c.toNat ≤ r.2 := by
  simp [covers]

end JavaModel.Text
