/-! # Sets of code points

A set of code points is a list of closed ranges, written in ascending order.
-/

namespace BitLayout.Text

/-- A set of code points as a list of closed ranges. -/
abbrev CodePoints := List (Nat × Nat)

def CodePoints.has (ranges : CodePoints) (c : Char) : Bool :=
  ranges.any fun (first, last) => first ≤ c.toNat && c.toNat ≤ last

theorem CodePoints.has_iff {ranges : CodePoints} {c : Char} :
    ranges.has c = true ↔ ∃ r ∈ ranges, r.1 ≤ c.toNat ∧ c.toNat ≤ r.2 := by
  simp [CodePoints.has]

end BitLayout.Text
