import BitLayout.Proofs.Numeral
import BitLayout.Word

/-! # Rows of bits

A row of bits, most significant first, stands for a number below the power of two
that its length gives. The bits of a word between two positions stand for the
number that is left of the word when the bits on either side are cut off.
-/

namespace BitLayout

/-- The number that a row of bits stands for, most significant first. -/
def bitNumber (bits : List Bool) : Nat := Text.Numeral.value 2 (bits.map Bool.toNat)

/-- The `count` bits of a word from `first` on, most significant first. -/
def Word.field (w : Word) (first count : Nat) : List Bool :=
  (List.range' first count).reverse.map w.getLsbD

@[simp] theorem bitNumber_nil : bitNumber [] = 0 := rfl

theorem bitNumber_cons (b : Bool) (bits : List Bool) :
    bitNumber (b :: bits) = b.toNat * 2 ^ bits.length + bitNumber bits := by
  simp [bitNumber, Text.Numeral.value_cons]

theorem bitNumber_append (front back : List Bool) :
    bitNumber (front ++ back) = bitNumber front * 2 ^ back.length + bitNumber back := by
  simp [bitNumber, Text.Numeral.value_append]

theorem lt_two_of_mem_bits (bits : List Bool) : ∀ d ∈ bits.map Bool.toNat, d < 2 := by
  intro d hd
  obtain ⟨b, -, rfl⟩ := List.mem_map.mp hd
  exact Bool.toNat_lt b

theorem bitNumber_lt (bits : List Bool) : bitNumber bits < 2 ^ bits.length := by
  simpa [bitNumber] using Text.Numeral.value_lt _ (lt_two_of_mem_bits bits)

theorem bitNumber_inj {front back : List Bool} (h : front.length = back.length) :
    bitNumber front = bitNumber back ↔ front = back := by
  constructor
  · intro hv
    have digits := Text.Numeral.value_inj (by simpa using h) (lt_two_of_mem_bits front)
      (lt_two_of_mem_bits back) hv
    exact (List.map_inj_right (by decide)).mp digits
  · rintro rfl
    rfl

namespace Word

theorem eq_iff_getLsbD {w v : Word} : w = v ↔ ∀ bit, w.getLsbD bit = v.getLsbD bit :=
  ⟨fun h _ => by rw [h], fun h => BitVec.eq_of_getLsbD_eq fun bit _ => h bit⟩

theorem and_eq_and_iff {w v m : Word} :
    w &&& m = v &&& m ↔ ∀ bit, m.getLsbD bit = true → w.getLsbD bit = v.getLsbD bit := by
  rw [eq_iff_getLsbD]
  refine forall_congr' fun bit => ?_
  cases h : m.getLsbD bit <;> simp [h]

theorem toNat_shiftUp (w : Word) (distance : Nat) :
    (w.shiftUp distance).toNat = w.toNat * 2 ^ distance % 2 ^ 64 := by
  rw [shiftUp_eq, BitVec.toNat_shiftLeft, Nat.shiftLeft_eq]

@[simp] theorem length_field (w : Word) (first count : Nat) :
    (w.field first count).length = count := by
  simp [field]

theorem field_succ (w : Word) (first count : Nat) :
    w.field first (count + 1) = w.getLsbD (first + count) :: w.field first count := by
  simp [field, List.range'_concat]

theorem bitNumber_field (w : Word) (first count : Nat) :
    bitNumber (w.field first count) = w.toNat / 2 ^ first % 2 ^ count := by
  induction count with
  | zero => simp [field, Nat.mod_one]
  | succ count ih =>
    have bit : (w.getLsbD (first + count)).toNat = w.toNat / 2 ^ first / 2 ^ count % 2 := by
      rw [Nat.div_div_eq_div_mul, ← Nat.pow_add, ← Nat.toNat_testBit, BitVec.testBit_toNat]
    rw [field_succ, bitNumber_cons, length_field, ih, bit, Nat.mod_pow_succ]
    ring

theorem bitNumber_field_zero {w : Word} {count : Nat} (h : w.toNat < 2 ^ count) :
    bitNumber (w.field 0 count) = w.toNat := by
  rw [bitNumber_field, Nat.pow_zero, Nat.div_one, Nat.mod_eq_of_lt h]

theorem field_ofNat_bitNumber {bits : List Bool} (h : bits.length ≤ 64) :
    field (BitVec.ofNat 64 (bitNumber bits)) 0 bits.length = bits := by
  have hp : 2 ^ bits.length ≤ 2 ^ 64 := Nat.pow_le_pow_right (by omega) h
  have hlt := bitNumber_lt bits
  have hw : (BitVec.ofNat 64 (bitNumber bits)).toNat = bitNumber bits := by
    rw [BitVec.toNat_ofNat, Nat.mod_eq_of_lt (Nat.lt_of_lt_of_le hlt hp)]
  apply (bitNumber_inj (by simp)).mp
  rw [bitNumber_field_zero (by rwa [hw]), hw]

/-- Selecting a span and moving it down leaves the field that the span covers. -/
theorem toNat_span_shiftRight (w : Word) {first last : Nat} (h : last < wordBits) :
    ((w &&& span first last) >>> first).toNat = w.toNat / 2 ^ first % 2 ^ (last + 1 - first) := by
  apply Nat.eq_of_testBit_eq
  intro i
  have hi : ((w &&& span first last) >>> first).getLsbD i =
      (w.getLsbD (first + i) && decide (i < last + 1 - first)) := by
    rw [BitVec.getLsbD_ushiftRight, BitVec.getLsbD_and, getLsbD_span h]
    congr 1
    exact decide_eq_decide.mpr (by omega)
  rw [Nat.testBit_mod_two_pow, Nat.testBit_div_two_pow, Bool.and_comm, Nat.add_comm i]
  exact hi

theorem toNat_span {first last : Nat} (hlt : last < 64) :
    (span first last).toNat = (2 ^ (last + 1 - first) - 1) * 2 ^ first := by
  apply Nat.eq_of_testBit_eq
  intro i
  rw [BitVec.testBit_toNat, getLsbD_span hlt, Nat.testBit_mul_two_pow,
    Nat.testBit_two_pow_sub_one, ← Bool.decide_and]
  exact decide_eq_decide.mpr (by omega)

theorem two_pow_dvd_and_span (w : Word) {first last : Nat} (hlt : last < 64) :
    2 ^ first ∣ (w &&& span first last).toNat := by
  apply Nat.dvd_of_mod_eq_zero
  apply Nat.eq_of_testBit_eq
  intro i
  rw [Nat.testBit_mod_two_pow, BitVec.testBit_toNat, BitVec.getLsbD_and, getLsbD_span hlt]
  by_cases h : i < first
  · simp [Nat.not_le.mpr h]
  · simp [h]

end Word

end BitLayout
