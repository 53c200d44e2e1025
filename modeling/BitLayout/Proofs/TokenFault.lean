import BitLayout.Proofs.Offsets
import BitLayout.Proofs.PieceText

/-! # Refused tokens

A token with a `#` or a `+` is refused over a foreign character before it is refused over its
length. Any other token is cut at its first minus sign, and refused over what stands before
it, then over what stands behind it, then over the order of the two numbers, and last over
the end of the range.
-/

namespace BitLayout

namespace Piece

/-- Why a row of characters is no range of bits: each fault presupposes that there is none
before it. -/
inductive RangeRefused : List Char → RangeFault → Prop
  | noSeparator {cs : List Char} : '-' ∉ cs → RangeRefused cs .noSeparator
  | startNotNumber {start stop : List Char} : '-' ∉ start → ¬ IsDecimal start →
      RangeRefused (start ++ '-' :: stop) .startNotNumber
  | startTooLarge {start stop : List Char} : IsDecimal start →
      2 ^ 32 ≤ Nat.ofDigitChars 10 start 0 → RangeRefused (start ++ '-' :: stop) .outOfRange
  | endNotNumber {start stop : List Char} : IsDecimal start →
      Nat.ofDigitChars 10 start 0 < 2 ^ 32 → ¬ IsDecimal stop →
      RangeRefused (start ++ '-' :: stop) .endNotNumber
  | endTooLarge {start stop : List Char} : IsDecimal start →
      Nat.ofDigitChars 10 start 0 < 2 ^ 32 → IsDecimal stop →
      2 ^ 32 ≤ Nat.ofDigitChars 10 stop 0 → RangeRefused (start ++ '-' :: stop) .outOfRange
  | startAboveEnd {start stop : List Char} : IsDecimal start →
      Nat.ofDigitChars 10 start 0 < 2 ^ 32 → IsDecimal stop →
      Nat.ofDigitChars 10 stop 0 < Nat.ofDigitChars 10 start 0 →
      RangeRefused (start ++ '-' :: stop) .startAboveEnd
  | endOutside {start stop : List Char} : IsDecimal start → IsDecimal stop →
      Nat.ofDigitChars 10 start 0 ≤ Nat.ofDigitChars 10 stop 0 →
      Nat.ofDigitChars 10 stop 0 < 2 ^ 32 → 64 ≤ Nat.ofDigitChars 10 stop 0 →
      RangeRefused (start ++ '-' :: stop) .outOfRange

inductive Refused (token : String) : EncodingError → Prop
  | foreignCharacter {fixed other : Char} : fixed ∈ token.toList → fixed = '#' ∨ fixed = '+' →
      other ∈ token.toList → ¬ (other = '#' ∨ other = '+') →
      Refused token (.badConst token .foreignCharacter)
  | tooLong : (∀ c ∈ token.toList, c = '#' ∨ c = '+') → 64 < token.toList.length →
      Refused token (.badConst token .tooLong)
  | range {reason : RangeFault} : (∀ c ∈ token.toList, ¬ (c = '#' ∨ c = '+')) →
      RangeRefused token.toList reason → Refused token (.badRange token reason)

open Text.Numeral (decimal_eq_ofDigitChars)

variable {cs : List Char} {token : String} {e : EncodingError} {foreign reason : RangeFault}

theorem constOfToken_eq_error_iff {fault : ConstFault} : constOfToken cs = .error fault ↔
    ((∃ c ∈ cs, ¬ (c = '#' ∨ c = '+')) ∧ fault = .foreignCharacter) ∨
      ((∀ c ∈ cs, c = '#' ∨ c = '+') ∧ 64 < cs.length ∧ fault = .tooLong) := by
  have hall : cs.all isFixedBit = true ↔ ∀ c ∈ cs, c = '#' ∨ c = '+' := by
    simp [isFixedBit_iff]
  unfold constOfToken
  by_cases hf : ∀ c ∈ cs, c = '#' ∨ c = '+'
  · have hn : ¬ ∃ c ∈ cs, ¬ (c = '#' ∨ c = '+') := fun ⟨c, hc, h⟩ => h (hf c hc)
    rw [hall.mpr hf, iff_false_intro hn, false_and, false_or, and_iff_right hf]
    by_cases hl : 64 < cs.length <;> simp [hl, eq_comm]
  · have hn : ∃ c ∈ cs, ¬ (c = '#' ∨ c = '+') := by simpa using hf
    rw [Bool.eq_false_iff.mpr fun h => hf (hall.mp h), iff_false_intro hf, false_and, or_false,
      and_iff_right hn]
    simp [eq_comm]

theorem boundOfToken_eq_error_iff : boundOfToken foreign cs = .error reason ↔
    (¬ IsDecimal cs ∧ reason = foreign) ∨
      (IsDecimal cs ∧ 2 ^ 32 ≤ Nat.ofDigitChars 10 cs 0 ∧ reason = .outOfRange) := by
  have hd : (cs.isEmpty || !cs.all Char.isDigit) = true ↔ ¬ IsDecimal cs := by
    simp [IsDecimal, Classical.or_iff_not_imp_left]
  have limit : boundLimit = 2 ^ 32 := rfl
  unfold boundOfToken
  rw [decimal_eq_ofDigitChars, limit]
  by_cases h : IsDecimal cs
  · rw [if_neg fun hc => hd.mp hc h, iff_false_intro (not_not_intro h), false_and, false_or,
      and_iff_right h]
    by_cases hl : 2 ^ 32 ≤ Nat.ofDigitChars 10 cs 0
    · rw [if_neg (Nat.not_lt.mpr hl), and_iff_right hl, Except.error.injEq, eq_comm]
    · rw [if_pos (Nat.lt_of_not_le hl), iff_false_intro hl]
      simp
  · rw [if_pos (hd.mpr h)]
    simp [h, eq_comm]

theorem rangeOfToken_eq_error_iff :
    rangeOfToken cs = .error reason ↔ RangeRefused cs reason := by
  constructor
  · intro h
    by_cases hm : '-' ∈ cs
    · obtain ⟨start, stop, rfl, hs⟩ := List.eq_append_cons_of_mem hm
      rw [rangeOfToken_append hs] at h
      rcases Outcome.bind_eq_error_iff.mp h with h | ⟨first, hf, h⟩
      · rcases boundOfToken_eq_error_iff.mp h with ⟨hd, rfl⟩ | ⟨hd, hl, rfl⟩
        · exact .startNotNumber hs hd
        · exact .startTooLarge hd hl
      obtain ⟨ds, rfl, ls⟩ := boundOfToken_eq_ok_iff.mp hf
      rcases Outcome.bind_eq_error_iff.mp h with h | ⟨last, hl, h⟩
      · rcases boundOfToken_eq_error_iff.mp h with ⟨hd, rfl⟩ | ⟨hd, hl, rfl⟩
        · exact .endNotNumber ds ls hd
        · exact .endTooLarge ds ls hd hl
      obtain ⟨dt, rfl, lt⟩ := boundOfToken_eq_ok_iff.mp hl
      split at h
      · rename_i hlt
        cases h
        exact .startAboveEnd ds ls dt hlt
      · rename_i hle
        split at h
        · rename_i hout
          cases h
          exact .endOutside ds dt (Nat.le_of_not_lt hle) lt hout
        · cases h
    · rw [rangeOfToken_of_not_mem hm] at h
      cases h
      exact .noSeparator hm
  · intro h
    cases h with
    | noSeparator hm => exact rangeOfToken_of_not_mem hm
    | startNotNumber hs hd =>
      rw [rangeOfToken_append hs, boundOfToken_eq_error_iff.mpr (.inl ⟨hd, rfl⟩)]
      rfl
    | startTooLarge ds hl =>
      rw [rangeOfToken_append (not_mem_minus ds),
        boundOfToken_eq_error_iff.mpr (.inr ⟨ds, hl, rfl⟩)]
      rfl
    | endNotNumber ds ls hd =>
      rw [rangeOfToken_append (not_mem_minus ds), boundOfToken_eq_ok_iff.mpr ⟨ds, rfl, ls⟩,
        boundOfToken_eq_error_iff.mpr (.inl ⟨hd, rfl⟩)]
      rfl
    | endTooLarge ds ls dt hl =>
      rw [rangeOfToken_append (not_mem_minus ds), boundOfToken_eq_ok_iff.mpr ⟨ds, rfl, ls⟩,
        boundOfToken_eq_error_iff.mpr (.inr ⟨dt, hl, rfl⟩)]
      rfl
    | startAboveEnd ds ls dt hlt =>
      rw [rangeOfToken_append (not_mem_minus ds), boundOfToken_eq_ok_iff.mpr ⟨ds, rfl, ls⟩,
        boundOfToken_eq_ok_iff.mpr ⟨dt, rfl, Nat.lt_trans hlt ls⟩]
      exact if_pos hlt
    | endOutside ds dt hle lt hout =>
      rw [rangeOfToken_append (not_mem_minus ds),
        boundOfToken_eq_ok_iff.mpr ⟨ds, rfl, Nat.lt_of_le_of_lt hle lt⟩,
        boundOfToken_eq_ok_iff.mpr ⟨dt, rfl, lt⟩, Outcome.ok_bind, Outcome.ok_bind,
        if_neg (Nat.not_lt.mpr hle), if_pos hout]

/-- The kind of the error tells whether the token has a character of fixed bits. -/
theorem Refused.kind (h : Refused token e) :
    ((∃ reason, e = .badConst token reason) ↔ ∃ c ∈ token.toList, c = '#' ∨ c = '+') ∧
      ((∃ reason, e = .badRange token reason) ↔ ¬ ∃ c ∈ token.toList, c = '#' ∨ c = '+') := by
  cases h with
  | foreignCharacter hm hc =>
    have hf : ∃ c ∈ token.toList, c = '#' ∨ c = '+' := ⟨_, hm, hc⟩
    simp [hf]
  | tooLong hall hl =>
    obtain ⟨c, hm⟩ := List.exists_mem_of_length_pos (Nat.zero_lt_of_lt hl)
    have hf : ∃ c ∈ token.toList, c = '#' ∨ c = '+' := ⟨c, hm, hall c hm⟩
    simp [hf]
  | range hn =>
    have hf : ¬ ∃ c ∈ token.toList, c = '#' ∨ c = '+' := fun ⟨c, hm, hc⟩ => hn c hm hc
    simp [hf]

theorem ofToken_eq_error_iff : ofToken token = .error e ↔ Refused token e := by
  have hany : token.toList.any isFixedBit = true ↔ ∃ c ∈ token.toList, c = '#' ∨ c = '+' := by
    simp only [List.any_eq_true, isFixedBit_iff]
  unfold ofToken
  by_cases hf : ∃ c ∈ token.toList, c = '#' ∨ c = '+'
  · rw [if_pos (hany.mpr hf), Outcome.mapError_eq_error_iff]
    constructor
    · rintro ⟨fault, h, rfl⟩
      obtain ⟨fixed, hm, hc⟩ := hf
      rcases constOfToken_eq_error_iff.mp h with ⟨⟨other, ho, hn⟩, rfl⟩ | ⟨hall, hl, rfl⟩
      · exact .foreignCharacter hm hc ho hn
      · exact .tooLong hall hl
    · intro h
      cases h with
      | foreignCharacter _ _ ho hn =>
        exact ⟨_, constOfToken_eq_error_iff.mpr (.inl ⟨⟨_, ho, hn⟩, rfl⟩), rfl⟩
      | tooLong hall hl => exact ⟨_, constOfToken_eq_error_iff.mpr (.inr ⟨hall, hl, rfl⟩), rfl⟩
      | range hn =>
        obtain ⟨c, hm, hc⟩ := hf
        exact absurd hc (hn c hm)
  · rw [if_neg fun h => hf (hany.mp h), Outcome.mapError_eq_error_iff]
    constructor
    · rintro ⟨reason, h, rfl⟩
      exact .range (fun c hm hc => hf ⟨c, hm, hc⟩) (rangeOfToken_eq_error_iff.mp h)
    · intro h
      obtain ⟨reason, rfl⟩ := h.kind.2.mpr hf
      cases h with
      | range _ hr => exact ⟨reason, rangeOfToken_eq_error_iff.mpr hr, rfl⟩

end Piece

namespace Slice

open Piece

/-- A token is accepted exactly when it is a row of at most 64 `#` and `+`, which stands for the
number that it spells in binary, or two decimal numbers up to 63 around a minus sign, the first
not above the second. Every other token is refused, over its fixed bits if it has a `#` or a `+`
and otherwise over its range, with the first fault that it has. -/
theorem ofToken_outcome (token : String) (shift : Nat) :
    (∀ s, ofToken token shift = .ok s ↔
      (token.toList ≠ [] ∧ (∀ c ∈ token.toList, c = '#' ∨ c = '+') ∧ token.toList.length ≤ 64 ∧
        ∃ number : Word, number.toNat = bitNumber (token.toList.map (· == '+')) ∧
          s = ⟨shift, .const token.toList.length number⟩) ∨
      ∃ start stop, token.toList = start ++ '-' :: stop ∧ IsDecimal start ∧ IsDecimal stop ∧
        Nat.ofDigitChars 10 start 0 ≤ Nat.ofDigitChars 10 stop 0 ∧
        Nat.ofDigitChars 10 stop 0 ≤ 63 ∧
        s = ⟨shift, .bits (Nat.ofDigitChars 10 start 0) (Nat.ofDigitChars 10 stop 0)⟩) ∧
    ((∃ reason, ofToken token shift = .error (.badConst token reason)) ↔
      (∃ c ∈ token.toList, c = '#' ∨ c = '+') ∧ ¬ ∃ s, ofToken token shift = .ok s) ∧
    ((∃ reason, ofToken token shift = .error (.badRange token reason)) ↔
      (¬ ∃ c ∈ token.toList, c = '#' ∨ c = '+') ∧ ¬ ∃ s, ofToken token shift = .ok s) ∧
    ∀ e, ofToken token shift = .error e ↔ Refused token e := by
  have refused (e : EncodingError) : ofToken token shift = .error e ↔ Refused token e :=
    Layout.ofToken_eq_error_iff.trans Piece.ofToken_eq_error_iff
  have kinds : ((∃ reason, ofToken token shift = .error (.badConst token reason)) ↔
        (∃ c ∈ token.toList, c = '#' ∨ c = '+') ∧ ¬ ∃ s, ofToken token shift = .ok s) ∧
      ((∃ reason, ofToken token shift = .error (.badRange token reason)) ↔
        (¬ ∃ c ∈ token.toList, c = '#' ∨ c = '+') ∧ ¬ ∃ s, ofToken token shift = .ok s) := by
    cases h : ofToken token shift with
    | ok s => simp
    | error e =>
      obtain ⟨hconst, hrange⟩ := ((refused e).mp h).kind
      rw [← hrange, ← hconst]
      simp
  refine ⟨fun s => ?_, kinds.1, kinds.2, refused⟩
  obtain ⟨n, p⟩ := s
  rw [Layout.ofToken_eq_ok_iff, Piece.ofToken_eq_ok_iff]
  constructor
  · rintro ⟨h, rfl⟩
    generalize token.toList = cs at h ⊢
    cases h with
    | const hne hall hl => exact .inl ⟨hne, hall, hl, _, toNat_fixed hl, rfl⟩
    | bits hs ht hf hl hle hlt =>
      subst hf hl
      exact .inr ⟨_, _, rfl, hs, ht, hle, Nat.le_of_lt_succ hlt, rfl⟩
  · rintro (⟨hne, hall, hl, number, hn, h⟩ | ⟨start, stop, he, hs, ht, hle, hlt, h⟩)
    · cases h
      obtain rfl : number = BitVec.ofNat 64 (bitNumber (fixedBits token.toList)) :=
        BitVec.eq_of_toNat_eq (hn.trans (toNat_fixed hl).symm)
      exact ⟨.const hne hall hl, rfl⟩
    · cases h
      rw [he]
      exact ⟨.bits hs ht rfl rfl hle (Nat.lt_succ_of_le hlt), rfl⟩

/-- The start is refused before the end is looked at. -/
example : ofToken "4294967296-x" 5 = .error (.badRange "4294967296-x" .outOfRange) := by decide

end Slice

end BitLayout
