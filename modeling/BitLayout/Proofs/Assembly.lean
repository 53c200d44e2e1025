import BitLayout.Proofs.Tiling

/-! # Assembled values

The value that a source assembles from a word is the number of the bits of its
tokens, one after the other. No bit is lost and no two slices meet, so the value
stays below the power of two that its width gives.
-/

namespace BitLayout

/-- The bits that the tokens of a source contribute for a word, most significant first. -/
def Layout.sourceBits (w : Word) (source : String) : List Bool :=
  (Layout.tokens source).flatMap fun t => Piece.tokenBits w t.toList

theorem mul_two_pow_add_lt {a b m n : Nat} (ha : a < 2 ^ m) (hb : b < 2 ^ n) :
    a * 2 ^ n + b < 2 ^ (m + n) :=
  calc a * 2 ^ n + b < a * 2 ^ n + 2 ^ n := Nat.add_lt_add_left hb _
    _ = (a + 1) * 2 ^ n := by ring
    _ ≤ 2 ^ m * 2 ^ n := Nat.mul_le_mul_right _ ha
    _ = 2 ^ (m + n) := by ring

/-- A slice that ends inside the word loses no bit when it is moved to its place. -/
theorem Slice.toNat_value {s : Slice} (hw : s.piece.WellFormed) (hle : s.length + s.shift ≤ 64)
    (w : Word) : (s.value w).toNat = (s.piece.value w).toNat * 2 ^ s.shift := by
  have hv := Piece.toNat_value_lt hw w
  have hlt : (s.piece.value w).toNat * 2 ^ s.shift < 2 ^ (s.length + s.shift) := by
    rw [Nat.pow_add]
    exact Nat.mul_lt_mul_of_pos_right hv (Nat.two_pow_pos _)
  have hword : 2 ^ (s.length + s.shift) ≤ 2 ^ 64 := Nat.pow_le_pow_right (by omega) hle
  rw [value, unshifted, Word.toNat_shiftUp, Nat.mod_eq_of_lt (Nat.lt_of_lt_of_le hlt hword)]

namespace Layout

variable {l : Layout} {s : Slice} {pieces : List Piece} {tokens : List String}

theorem LaidOut.toNat_value_cons (h : LaidOut (s :: l)) {w : Word}
    (hl : (value w l).toNat < 2 ^ l.width) : (value w (s :: l)).toNat =
      (s.piece.value w).toNat * 2 ^ l.width + (value w l).toNat := by
  obtain ⟨hw, hs, hle, -⟩ := laidOut_cons.mp h
  have hv := Slice.toNat_value hw (hs ▸ hle) w
  have hlt := mul_two_pow_add_lt (Piece.toNat_value_lt hw w) hl
  have hword : 2 ^ (s.length + l.width) ≤ 2 ^ 64 := Nat.pow_le_pow_right (by omega) hle
  rw [value, BitVec.toNat_add, hv, hs, Nat.mod_eq_of_lt (Nat.lt_of_lt_of_le hlt hword)]

theorem LaidOut.toNat_value_lt (h : LaidOut l) (w : Word) :
    (value w l).toNat < 2 ^ l.width := by
  induction l with
  | nil => simp [value, width]
  | cons s l ih =>
    have hl := ih h.tail
    rw [h.toNat_value_cons hl]
    exact mul_two_pow_add_lt (Piece.toNat_value_lt (laidOut_cons.mp h).1 w) hl

theorem sum_map_length (l : Layout) : (l.map Slice.length).sum = width l := by
  induction l with
  | nil => rfl
  | cons s l ih => rw [List.map_cons, List.sum_cons, ih, width]

theorem LaidOut.sum_map_toNat_value (h : LaidOut l) (w : Word) :
    (l.map fun s => (s.value w).toNat).sum = (value w l).toNat := by
  induction l with
  | nil => rfl
  | cons s l ih =>
    obtain ⟨hw, hs, hle, hl⟩ := laidOut_cons.mp h
    rw [List.map_cons, List.sum_cons, ih hl, h.toNat_value_cons (hl.toNat_value_lt w),
      Slice.toNat_value hw (hs ▸ hle), hs]

/-- The slices of a value meet nowhere, so that adding them is uniting their bits. -/
theorem LaidOut.foldr_or_value (h : LaidOut l) (w : Word) :
    (l.map (Slice.value · w)).foldr (· ||| ·) 0 = value w l := by
  induction l with
  | nil => rfl
  | cons s l ih =>
    obtain ⟨hw, hs, hle, hl⟩ := laidOut_cons.mp h
    apply BitVec.eq_of_toNat_eq
    rw [List.map_cons, List.foldr_cons, ih hl, BitVec.toNat_or,
      h.toNat_value_cons (hl.toNat_value_lt w), Slice.toNat_value hw (hs ▸ hle), hs,
      ← Nat.shiftLeft_eq, Nat.shiftLeft_add_eq_or_of_lt (hl.toNat_value_lt w)]

theorem Spelled.length_bits (h : Spelled tokens pieces) (w : Word) :
    (tokens.flatMap fun t => Piece.tokenBits w t.toList).length = (stack pieces).width := by
  induction h with
  | nil => rfl
  | cons hp _ ih =>
    rw [List.flatMap_cons, List.length_append, ih,
      (Piece.ofToken_eq_ok_iff.mp hp).length_tokenBits w]
    rfl

theorem Spelled.bitNumber_bits (h : Spelled tokens pieces) (hl : LaidOut (stack pieces))
    (w : Word) : bitNumber (tokens.flatMap fun t => Piece.tokenBits w t.toList) =
      (value w (stack pieces)).toNat := by
  induction h with
  | nil => rfl
  | cons hp hs ih =>
    rw [stack] at hl ⊢
    rw [hl.toNat_value_cons (hl.tail.toNat_value_lt w), List.flatMap_cons, bitNumber_append,
      ih hl.tail, Spelled.length_bits hs w, (Piece.ofToken_eq_ok_iff.mp hp).bitNumber_tokenBits w]

end Layout

namespace Parameter

/-- The value of an accepted parameter is the number of the bits of its source. -/
theorem toNat_value_eq_bitNumber {name source : String} {description : Option String}
    {p : Parameter} (h : make name source description = .ok p) (w : Word) :
    (p.value w).toNat = bitNumber (Layout.sourceBits w source) ∧
      p.width = (Layout.sourceBits w source).length ∧ (p.value w).toNat < 2 ^ p.width := by
  obtain ⟨-, hne, hl, -⟩ := make_eq_ok_iff.mp h
  obtain ⟨ps, hs, he, -⟩ := (Layout.ofSource_eq_ok_iff hne).mp hl
  have laid : Layout.LaidOut p.layout := Layout.laidOut_of_ofSource hl
  refine ⟨?_, ?_, laid.toNat_value_lt w⟩
  · rw [Layout.sourceBits, hs.bitNumber_bits (he ▸ laid) w, ← he]
    rfl
  · rw [Layout.sourceBits, hs.length_bits w, ← he]
    rfl

/-- A parameter with ranges on both sides of fixed bits. -/
def sample : Parameter :=
  ⟨"imm", "2-3,#+,0-1", none, [⟨4, .bits 2 3⟩, ⟨2, .const 2 1⟩, ⟨0, .bits 0 1⟩]⟩

theorem toNat_value_eq_bitNumber_sample :
    make "imm" "2-3,#+,0-1" none = .ok sample ∧
      Layout.sourceBits 0xe "2-3,#+,0-1" = [true, true, false, true, true, false] ∧
      (sample.value 0xe).toNat = 0b110110 ∧ sample.width = 6 ∧
      (sample.value 0xe).toNat < 2 ^ sample.width := by
  have h : make "imm" "2-3,#+,0-1" none = .ok sample := by decide +kernel
  have hb : Layout.sourceBits 0xe "2-3,#+,0-1" = [true, true, false, true, true, false] := by
    decide +kernel
  obtain ⟨hv, hw, hlt⟩ := toNat_value_eq_bitNumber h 0xe
  rw [hb] at hv hw
  exact ⟨h, hb, hv, hw, hlt⟩

end Parameter

end BitLayout
