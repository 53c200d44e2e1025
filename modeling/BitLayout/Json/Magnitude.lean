import BitLayout.Word

/-! # Magnitudes of decimal numbers

A number may not be larger than the doubles. Its size is judged by the digits
that fit a word: of a longer row of digits the leading part is kept. The kept
significand and the power of ten are each rounded to 53 significant bits, and
their product must stay below the point from which doubles round to infinity.
-/

namespace BitLayout.Json.Magnitude

/-- A natural number rounded to 53 significant bits, ties to even. -/
def round53 (n : Nat) : Nat :=
  let excess := n.log2 - 52
  let unit := 1 <<< excess
  let down := n / unit
  let twice := 2 * (n % unit)
  if unit < twice || (twice == unit && down % 2 == 1) then (down + 1) * unit else down * unit

/-- The least number that rounds to infinity among the doubles. -/
def infinite : Nat := (1 <<< 1024) - (1 <<< 970)

/-- A significand after as many digits as fit a word, and the digits left over. -/
def absorb (significand : Nat) : List Nat → Nat × List Nat
  | [] => (significand, [])
  | d :: ds =>
    if significand * 10 + d < Word.limit then absorb (significand * 10 + d) ds
    else (significand, d :: ds)

/-- The least power of ten that takes a word out of the doubles. -/
def leastScale : Nat := 289

/-- The greatest power of ten among the doubles. -/
def greatestScale : Nat := 308

def overflows (whole fraction : List Nat) (exponent : Int) : Bool :=
  let (kept, dropped) := absorb 0 whole
  let (significand, left) := absorb kept fraction
  let scale := exponent + dropped.length - (fraction.length - left.length : Nat)
  significand != 0 && decide (leastScale ≤ scale) &&
    (decide (greatestScale < scale) ||
      decide (infinite ≤ round53 significand * round53 (Nat.pow 10 scale.toNat)))

end BitLayout.Json.Magnitude
