import BitLayout.Proofs.Bits
import BitLayout.Slice

/-! # Slices in numbers

A range takes from the number of a word the remainder of a quotient by powers of two, and a
slice puts what its piece takes up by another power, modulo that of the whole word. This holds
of every slice whose range lies in the word, however far it is moved and however large its
constant is. The mask of a range has just the bits of the range, and no other bit matters.
-/

namespace BitLayout

namespace Piece

/-- The range lies in the word; the number of a constant need not fit its length. -/
def InWord : Piece → Prop
  | bits first last => first ≤ last ∧ last < 64
  | const _ _ => True

/-- What a piece takes from the number of a word. -/
def taken (n : Nat) : Piece → Nat
  | bits first last => n / 2 ^ first % 2 ^ (last - first + 1)
  | const _ number => number.toNat

variable {first last : Nat}

theorem toNat_value {p : Piece} (h : p.InWord) (w : Word) :
    (p.value w).toNat = p.taken w.toNat := by
  cases p with
  | bits first last =>
    have hcount : last + 1 - first = last - first + 1 := Nat.succ_sub h.1
    rw [value, Word.toNat_span_shiftRight w h.2, hcount, taken]
  | const => rfl

/-- Moved up again, what a range takes is what its mask selects. -/
theorem toNat_value_bits (hlt : last < 64) (w : Word) :
    ((bits first last).value w).toNat * 2 ^ first = (w &&& Word.span first last).toNat := by
  rw [value, BitVec.toNat_ushiftRight, Nat.shiftRight_eq_div_pow]
  exact Nat.div_mul_cancel (Word.two_pow_dvd_and_span w hlt)

end Piece

namespace Slice

variable {s : Slice}

theorem toNat_value_of_inWord (h : s.piece.InWord) (w : Word) :
    (s.value w).toNat = s.piece.taken w.toNat * 2 ^ s.shift % 2 ^ 64 := by
  rw [value, Word.toNat_shiftUp, unshifted, Piece.toNat_value h]

theorem value_eq_of_and {first last : Nat} (hs : s.piece = .bits first last) {w v : Word}
    (h : w &&& Word.span first last = v &&& Word.span first last) : s.value w = s.value v := by
  simp only [value, unshifted, hs, Piece.value, h]

/-- The value of a slice is what its piece takes from the number of the word, times a power of
two and modulo that of the word. The mask of a range has the bits of the range, the value is
the same for words that agree on them, and before it is moved the value is what the mask
selects. -/
theorem toNat_value_eq_mod (h : s.piece.InWord) (w : Word) :
    (s.value w).toNat = s.piece.taken w.toNat * 2 ^ s.shift % 2 ^ 64 ∧
      ∀ first last, s.piece = .bits first last → ∃ mask, s.mask? = some mask ∧
        (∀ bit, mask.getLsbD bit = true ↔ first ≤ bit ∧ bit ≤ last) ∧
        (∀ v : Word, (∀ bit, mask.getLsbD bit = true → w.getLsbD bit = v.getLsbD bit) →
          s.value w = s.value v) ∧
        (s.unshifted w).toNat * 2 ^ first = (w &&& mask).toNat := by
  refine ⟨toNat_value_of_inWord h w, fun first last hs => ?_⟩
  rw [hs] at h
  refine ⟨Word.span first last, ?_, fun bit => ?_, fun v hv => ?_, ?_⟩
  · rw [mask?, hs, Piece.mask?]
  · rw [Word.getLsbD_span h.2, decide_eq_true_eq]
  · exact value_eq_of_and hs (Word.and_eq_and_iff.mpr hv)
  · rw [unshifted, hs, Piece.toNat_value_bits h.2]

/-- The whole word moved up, a range that leaves the word at the top, and a constant that is
wider than its length and is moved out of the word. -/
theorem toNat_value_eq_mod_sample :
    let whole : Slice := ⟨4, .bits 0 63⟩
    let high : Slice := ⟨60, .bits 56 63⟩
    let wide : Slice := ⟨70, .const 1 0xff⟩
    let w : Word := 0xb4f000000000000a
    (whole.value w).toNat = 0x4f000000000000a0 ∧ (high.value w).toNat = 0x4000000000000000 ∧
      (wide.value w).toNat = 0 ∧
      ∃ mask, high.mask? = some mask ∧ mask.getLsbD 55 = false ∧ mask.getLsbD 56 = true ∧
        high.value w = high.value (w ^^^ 1) ∧ 0xb4 * 2 ^ 56 = (w &&& mask).toNat := by
  intro whole high wide w
  obtain ⟨hwhole, -⟩ := toNat_value_eq_mod (s := whole) ⟨by decide, by decide⟩ w
  obtain ⟨hhigh, hrange⟩ := toNat_value_eq_mod (s := high) ⟨by decide, by decide⟩ w
  obtain ⟨hwide, -⟩ := toNat_value_eq_mod (s := wide) trivial w
  obtain ⟨mask, hm, hbits, hsame, hmask⟩ := hrange 56 63 rfl
  have htaken : (high.unshifted w).toNat = 0xb4 := by decide +kernel
  rw [htaken] at hmask
  refine ⟨hwhole.trans (by decide +kernel), hhigh.trans (by decide +kernel),
    hwide.trans (by decide +kernel), mask, hm, ?_, (hbits 56).mpr (by decide), hsame _ ?_, hmask⟩
  · rw [Bool.eq_false_iff, ne_eq, hbits]
    decide
  · intro bit hbit
    have hne : ¬ bit = 0 := by
      rintro rfl
      exact absurd ((hbits 0).mp hbit) (by decide)
    simp [hne]

end Slice

end BitLayout
