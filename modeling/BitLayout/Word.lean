/-! # Words

A word is a row of 64 bits, bit 0 the least significant. Moving a word up loses
the bits that leave at the top, whatever the distance. A span is the word whose
set bits are exactly those between two positions.
-/

namespace BitLayout

abbrev wordBits : Nat := 64

/-- A raw instruction word, or a value assembled from one. -/
abbrev Word := BitVec wordBits

namespace Word

/-- The number of words, above the number that any word stands for. -/
def limit : Nat := 0x10000000000000000

def shiftUp (w : Word) (distance : Nat) : Word :=
  if distance < wordBits then w <<< distance else 0

/-- The word whose lowest `count` bits are set, all of them from 64 on. -/
def lowest (count : Nat) : Word := BitVec.allOnes wordBits >>> (wordBits - count)

/-- The word whose set bits are `first` to `last`. -/
def span (first last : Nat) : Word := shiftUp (lowest (last + 1 - first)) first

def lowestBit? (w : Word) : Option Nat := (List.range wordBits).find? w.getLsbD

def fits (w : Word) (count : Nat) : Bool := w >>> count == 0

theorem shiftUp_eq (w : Word) (distance : Nat) : w.shiftUp distance = w <<< distance := by
  unfold shiftUp
  split
  · rfl
  · rw [BitVec.shiftLeft_eq_zero (by omega)]
    rfl

theorem getLsbD_lowest (count i : Nat) :
    (lowest count).getLsbD i = decide (i < 64 ∧ i < count) := by
  rw [lowest, BitVec.getLsbD_ushiftRight, BitVec.getLsbD_allOnes]
  exact decide_eq_decide.2 (by unfold wordBits; omega)

theorem getLsbD_span {first last : Nat} (h : last < 64) (i : Nat) :
    (span first last).getLsbD i = decide (first ≤ i ∧ i ≤ last) := by
  rw [span, shiftUp_eq, BitVec.getLsbD_shiftLeft, getLsbD_lowest]
  simp only [← Bool.decide_and, ← decide_not]
  exact decide_eq_decide.2 (by unfold wordBits; omega)

theorem lowestBit?_eq_none_iff {w : Word} : w.lowestBit? = none ↔ w = 0 := by
  rw [lowestBit?, List.find?_eq_none]
  constructor
  · intro h
    refine BitVec.eq_of_getLsbD_eq fun i hi => ?_
    simpa using h i (List.mem_range.2 hi)
  · rintro rfl i -
    simp

theorem lowestBit?_eq_some_iff {w : Word} {i : Nat} :
    w.lowestBit? = some i ↔ w.getLsbD i = true ∧ ∀ j < i, w.getLsbD j = false := by
  rw [lowestBit?, List.find?_range_eq_some]
  constructor
  · rintro ⟨hi, -, h⟩
    exact ⟨hi, fun j hj => by simpa using h j hj⟩
  · rintro ⟨hi, h⟩
    exact ⟨hi, List.mem_range.2 (BitVec.lt_of_getLsbD hi), fun j hj => by simpa using h j hj⟩

theorem fits_iff {w : Word} {count : Nat} :
    w.fits count = true ↔ ∀ i, w.getLsbD i = true → i < count := by
  rw [fits, beq_iff_eq]
  constructor
  · intro h i hi
    apply Nat.lt_of_not_le
    intro hle
    have hz : (w >>> count).getLsbD (i - count) = true := by
      rwa [BitVec.getLsbD_ushiftRight, Nat.add_sub_cancel' hle]
    simp [h] at hz
  · intro h
    refine BitVec.eq_of_getLsbD_eq fun i _ => ?_
    rw [BitVec.getLsbD_ushiftRight, Bool.eq_false_iff.2 fun hi => absurd (h _ hi) (by omega)]
    simp

end Word

end BitLayout
