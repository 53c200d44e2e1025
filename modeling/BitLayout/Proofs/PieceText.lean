import BitLayout.Proofs.Token

/-! # Pieces and their written form

A piece that a token spells stays inside the word, and its fixed bits fit its
length. Every such piece has a token of its own. For a word, a token contributes a
row of bits, and its piece has the number and the length of that row.
-/

namespace BitLayout.Piece

/-- The range ends inside the word, and the fixed bits fit their length. -/
def WellFormed : Piece → Prop
  | bits first last => first ≤ last ∧ last < 64
  | const length number => 1 ≤ length ∧ length ≤ 64 ∧ number.toNat < 2 ^ length

def token : Piece → List Char
  | bits first last => Nat.toDigits 10 first ++ '-' :: Nat.toDigits 10 last
  | const length number => (number.field 0 length).map fun b => if b then '+' else '#'

/-- The bits that a token contributes for a word, most significant first: one for each
character, or those of the word between the two positions that it names. -/
def tokenBits (w : Word) (token : List Char) : List Bool :=
  match token.splitOn '-' with
  | [start, stop] =>
    w.field (Nat.ofDigitChars 10 start 0)
      (Nat.ofDigitChars 10 stop 0 + 1 - Nat.ofDigitChars 10 start 0)
  | _ => fixedBits token

variable {cs start stop : List Char} {p : Piece}

theorem isDecimal_toDigits (n : Nat) : IsDecimal (Nat.toDigits 10 n) :=
  ⟨Nat.toDigits_ne_nil, fun _ h => Nat.isDigit_of_mem_toDigits (by decide) (by decide) h⟩

theorem fixedBits_map (bits : List Bool) :
    fixedBits (bits.map fun b => if b then '+' else '#') = bits := by
  induction bits with
  | nil => rfl
  | cons b bs ih =>
    rw [List.map_cons, fixedBits_cons, ih]
    cases b <;> rfl

theorem toNat_fixed (h : cs.length ≤ 64) :
    (BitVec.ofNat 64 (bitNumber (fixedBits cs))).toNat = bitNumber (fixedBits cs) := by
  rw [← fixedNumber_eq h, toNat_fixedNumber h]

theorem Spells.wellFormed (h : Spells cs p) : p.WellFormed := by
  cases h with
  | const hne _ hl =>
    refine ⟨List.length_pos_iff.mpr hne, hl, ?_⟩
    rw [toNat_fixed hl]
    exact bitNumber_fixedBits_lt _
  | bits _ _ _ _ hle hlt => exact ⟨hle, hlt⟩

theorem spells_token (h : p.WellFormed) : Spells p.token p := by
  cases p with
  | bits first last =>
    exact .bits (isDecimal_toDigits first) (isDecimal_toDigits last)
      Nat.ofDigitChars_ten_toDigits Nat.ofDigitChars_ten_toDigits h.1 h.2
  | const length number =>
    obtain ⟨hpos, hl, hn⟩ := h
    have hlen : (token (const length number)).length = length := by simp [token]
    have hnum : BitVec.ofNat 64 (bitNumber (fixedBits (token (const length number)))) = number := by
      rw [token, fixedBits_map, Word.bitNumber_field_zero hn]
      exact BitVec.ofNat_toNat 64 number
    have hs : Spells (token (const length number)) (const (token (const length number)).length
        (BitVec.ofNat 64 (bitNumber (fixedBits (token (const length number)))))) := by
      refine .const ?_ ?_ (by rwa [hlen])
      · exact List.ne_nil_of_length_pos (by rwa [hlen])
      · intro c hc
        obtain ⟨b, -, rfl⟩ := List.mem_map.mp hc
        cases b
        · exact Or.inl rfl
        · exact Or.inr rfl
    rwa [hlen, hnum] at hs

theorem Spells.ne_nil (h : Spells cs p) : cs ≠ [] := by
  cases h with
  | const hne => exact hne
  | bits => simp

theorem Spells.comma_not_mem (h : Spells cs p) : ',' ∉ cs := by
  cases h with
  | const _ hall =>
    intro hm
    rcases hall _ hm with h | h <;> exact absurd h (by decide)
  | bits hs ht =>
    intro hm
    rcases List.mem_append.mp hm with hm | hm
    · exact absurd (hs.2 _ hm) (by decide)
    · rcases List.mem_cons.mp hm with h | hm
      · exact absurd h (by decide)
      · exact absurd (ht.2 _ hm) (by decide)

theorem splitOn_fixed (h : ∀ c ∈ cs, c = '#' ∨ c = '+') : cs.splitOn '-' = [cs] := by
  refine List.splitOn_eq_singleton fun hm => ?_
  rcases h _ hm with h | h <;> exact absurd h (by decide)

theorem splitOn_range (hs : IsDecimal start) (ht : IsDecimal stop) :
    (start ++ '-' :: stop).splitOn '-' = [start, stop] := by
  rw [List.splitOn_append_cons_self_of_not_mem (not_mem_minus hs),
    List.splitOn_eq_singleton (not_mem_minus ht)]

theorem tokenBits_fixed (h : ∀ c ∈ cs, c = '#' ∨ c = '+') (w : Word) :
    tokenBits w cs = fixedBits cs := by
  rw [tokenBits, splitOn_fixed h]

theorem tokenBits_range (hs : IsDecimal start) (ht : IsDecimal stop) (w : Word) :
    tokenBits w (start ++ '-' :: stop) = w.field (Nat.ofDigitChars 10 start 0)
      (Nat.ofDigitChars 10 stop 0 + 1 - Nat.ofDigitChars 10 start 0) := by
  rw [tokenBits, splitOn_range hs ht]

theorem Spells.length_tokenBits (h : Spells cs p) (w : Word) :
    (tokenBits w cs).length = p.length := by
  cases h with
  | const _ hall => rw [tokenBits_fixed hall, length_fixedBits, Piece.length]
  | bits hs ht hf hl => rw [tokenBits_range hs ht, Word.length_field, hf, hl, Piece.length]

theorem Spells.bitNumber_tokenBits (h : Spells cs p) (w : Word) :
    bitNumber (tokenBits w cs) = (p.value w).toNat := by
  cases h with
  | const _ hall hl => rw [tokenBits_fixed hall, value, toNat_fixed hl]
  | bits hs ht hf hl hle hlt =>
    rw [tokenBits_range hs ht, hf, hl, Word.bitNumber_field, value,
      Word.toNat_span_shiftRight w hlt]

theorem length_pos (h : p.WellFormed) : 0 < p.length := by
  cases p with
  | bits first last => exact Nat.sub_pos_of_lt (Nat.lt_succ_of_le h.1)
  | const length number => exact h.1

theorem toNat_value_lt (h : p.WellFormed) (w : Word) : (p.value w).toNat < 2 ^ p.length := by
  have hs := spells_token h
  rw [← hs.bitNumber_tokenBits w, ← hs.length_tokenBits w]
  exact bitNumber_lt _

end BitLayout.Piece
