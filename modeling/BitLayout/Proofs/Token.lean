import Mathlib.Data.List.TakeDrop
import Mathlib.Data.List.TakeWhile
import BitLayout.Piece
import BitLayout.Proofs.Bits
import BitLayout.Proofs.Outcome

/-! # The grammar of tokens

A token spells fixed bits, one for each of its characters, or a range by two
decimal numbers with a minus sign between them. Reading a token gives exactly the
piece that it spells.
-/

namespace BitLayout.Piece

open Text.Numeral (decimal decimal_eq_ofDigitChars decimal_toDigits)

def IsDecimal (cs : List Char) : Prop := cs ≠ [] ∧ ∀ c ∈ cs, c.isDigit = true

/-- The fixed bits that a row of `#` and `+` spells, most significant first. -/
def fixedBits (token : List Char) : List Bool := token.map (· == '+')

inductive Spells : List Char → Piece → Prop
  | const {token : List Char} : token ≠ [] → (∀ c ∈ token, c = '#' ∨ c = '+') →
      token.length ≤ 64 →
      Spells token (const token.length (BitVec.ofNat 64 (bitNumber (fixedBits token))))
  | bits {start stop : List Char} {first last : Nat} : IsDecimal start → IsDecimal stop →
      Nat.ofDigitChars 10 start 0 = first → Nat.ofDigitChars 10 stop 0 = last →
      first ≤ last → last < 64 → Spells (start ++ '-' :: stop) (bits first last)

@[simp] theorem length_fixedBits (token : List Char) :
    (fixedBits token).length = token.length := List.length_map _

theorem fixedBits_cons (c : Char) (token : List Char) :
    fixedBits (c :: token) = (c == '+') :: fixedBits token := rfl

theorem isFixedBit_iff {c : Char} : isFixedBit c = true ↔ c = '#' ∨ c = '+' := by
  simp [isFixedBit]

theorem isFixedBit_of_isDigit {c : Char} (h : c.isDigit = true) : isFixedBit c = false := by
  rw [Bool.eq_false_iff, ne_eq, isFixedBit_iff]
  rintro (rfl | rfl) <;> simp at h

theorem ne_minus_of_isDigit {c : Char} (h : c.isDigit = true) : c ≠ '-' := by
  rintro rfl
  simp at h

theorem toNat_appendBit {number : Word} {n : Nat} (hn : n < 64) (h : number.toNat < 2 ^ n)
    (b : Bool) :
    (number <<< 1 ||| if b = true then 1 else 0).toNat = number.toNat * 2 ^ 1 + b.toNat := by
  have hp : 2 ^ (n + 1) ≤ 2 ^ 64 := Nat.pow_le_pow_right (by omega) (by omega)
  have hb : b.toNat < 2 ^ 1 := Bool.toNat_lt b
  have hs : number.toNat <<< 1 % 2 ^ 64 = number.toNat <<< 1 := by
    rw [Nat.shiftLeft_eq]
    exact Nat.mod_eq_of_lt (by omega)
  have hi : (if b = true then 1 else 0 : Word).toNat = b.toNat := by cases b <;> rfl
  rw [BitVec.toNat_or, BitVec.toNat_shiftLeft, hs, hi, ← Nat.shiftLeft_add_eq_or_of_lt hb,
    Nat.shiftLeft_eq]

/-- Reading fixed bits after `n` of them appends their number, as long as all fit a word. -/
theorem toNat_foldl_fixed (token : List Char) (number : Word) {n : Nat}
    (hn : n + token.length ≤ 64) (h : number.toNat < 2 ^ n) :
    (token.foldl (fun (w : Word) c => w <<< 1 ||| if c = '+' then 1 else 0) number).toNat =
      number.toNat * 2 ^ token.length + bitNumber (fixedBits token) := by
  -- `n` bounds the bits in use, so that no shift drops one
  induction token generalizing number n with
  | nil => simp [fixedBits]
  | cons c cs ih =>
    rw [List.length_cons] at hn
    have step := toNat_appendBit (by omega) h (c == '+')
    simp only [beq_iff_eq] at step
    have hb : (c == '+').toNat < 2 := Bool.toNat_lt _
    have hlt : (number <<< 1 ||| if c = '+' then 1 else 0).toNat < 2 ^ (n + 1) := by
      rw [step]
      omega
    rw [List.foldl_cons, ih _ (by omega) hlt, step, fixedBits_cons, bitNumber_cons,
      length_fixedBits, List.length_cons]
    ring

theorem toNat_fixedNumber {token : List Char} (h : token.length ≤ 64) :
    (fixedNumber token).toNat = bitNumber (fixedBits token) := by
  have hf := toNat_foldl_fixed token 0 (n := 0) (by omega) (by simp)
  simpa [fixedNumber] using hf

theorem bitNumber_fixedBits_lt (token : List Char) :
    bitNumber (fixedBits token) < 2 ^ token.length := by
  simpa using bitNumber_lt (fixedBits token)

theorem fixedNumber_eq {token : List Char} (h : token.length ≤ 64) :
    fixedNumber token = BitVec.ofNat 64 (bitNumber (fixedBits token)) := by
  apply BitVec.eq_of_toNat_eq
  have hp : 2 ^ token.length ≤ 2 ^ 64 := Nat.pow_le_pow_right (by omega) h
  have hl := bitNumber_fixedBits_lt token
  rw [toNat_fixedNumber h, BitVec.toNat_ofNat, Nat.mod_eq_of_lt (Nat.lt_of_lt_of_le hl hp)]

theorem constOfToken_eq_ok_iff {token : List Char} {p : Piece} :
    constOfToken token = .ok p ↔ (∀ c ∈ token, c = '#' ∨ c = '+') ∧ token.length ≤ 64 ∧
      p = const token.length (BitVec.ofNat 64 (bitNumber (fixedBits token))) := by
  have hall : token.all isFixedBit = true ↔ ∀ c ∈ token, c = '#' ∨ c = '+' := by
    simp [isFixedBit_iff]
  unfold constOfToken
  by_cases hf : token.all isFixedBit = true
  · by_cases hl : token.length ≤ 64
    · have hw : ¬ wordBits < token.length := by unfold wordBits; omega
      simp only [hf, Bool.not_true, Bool.false_eq_true, if_false, if_neg hw, fixedNumber_eq hl,
        Except.ok.injEq]
      exact ⟨fun h => ⟨hall.mp hf, hl, h.symm⟩, fun h => h.2.2.symm⟩
    · have hw : wordBits < token.length := by unfold wordBits; omega
      simp [hf, hw, hl]
  · have hn : ¬ ∀ c ∈ token, c = '#' ∨ c = '+' := fun h => hf (hall.mpr h)
    simp [Bool.eq_false_iff.mpr hf, hn]

theorem boundOfToken_eq_ok_iff {foreign : RangeFault} {cs : List Char} {n : Nat} :
    boundOfToken foreign cs = .ok n ↔
      IsDecimal cs ∧ Nat.ofDigitChars 10 cs 0 = n ∧ n < 2 ^ 32 := by
  unfold boundOfToken IsDecimal
  rw [← decimal_eq_ofDigitChars]
  by_cases hf : cs.isEmpty || !cs.all Char.isDigit
  · have hn : ¬ (cs ≠ [] ∧ ∀ c ∈ cs, c.isDigit = true) := by
      rintro ⟨hne, hd⟩
      simp [hne] at hf
      obtain ⟨c, hc, hcf⟩ := hf
      simp [hd c hc] at hcf
    simp [hf, hn]
  · have hd : cs ≠ [] ∧ ∀ c ∈ cs, c.isDigit = true := by simpa using hf
    rw [if_neg hf]
    by_cases hl : decimal cs < boundLimit
    · rw [if_pos hl, Except.ok.injEq]
      exact ⟨fun h => ⟨hd, h, h ▸ hl⟩, fun h => h.2.1⟩
    · rw [if_neg hl]
      simp only [reduceCtorEq, false_iff, not_and]
      rintro - rfl
      exact hl

theorem rangeOfToken_of_not_mem {token : List Char} (h : '-' ∉ token) :
    rangeOfToken token = .error .noSeparator := by
  have hd : token.dropWhile (· != '-') = [] := by
    rw [List.dropWhile_eq_nil_iff]
    intro c hc
    simpa using fun e : c = '-' => h (e ▸ hc)
  rw [rangeOfToken, List.span_eq_takeWhile_dropWhile, hd]

theorem rangeOfToken_append {start : List Char} (h : '-' ∉ start) (stop : List Char) :
    rangeOfToken (start ++ '-' :: stop) = (do
      let first ← boundOfToken .startNotNumber start
      let last ← boundOfToken .endNotNumber stop
      if last < first then .error .startAboveEnd
      else if wordBits ≤ last then .error .outOfRange
      else .ok (bits first last)) := by
  have hp : ∀ c ∈ start, (c != '-') = true := by
    intro c hc
    simpa using fun e : c = '-' => h (e ▸ hc)
  rw [rangeOfToken, List.span_eq_takeWhile_dropWhile, List.takeWhile_append_of_pos hp,
    List.dropWhile_append_of_pos hp]
  simp

theorem not_mem_minus {cs : List Char} (h : IsDecimal cs) : '-' ∉ cs :=
  fun hm => ne_minus_of_isDigit (h.2 _ hm) rfl

theorem rangeOfToken_eq_ok_iff {token : List Char} {p : Piece} :
    rangeOfToken token = .ok p ↔ ∃ start stop first last, token = start ++ '-' :: stop ∧
      IsDecimal start ∧ IsDecimal stop ∧ Nat.ofDigitChars 10 start 0 = first ∧
      Nat.ofDigitChars 10 stop 0 = last ∧ first ≤ last ∧ last < 64 ∧ p = bits first last := by
  constructor
  · intro h
    by_cases hm : '-' ∈ token
    · obtain ⟨start, stop, rfl, hs⟩ := List.eq_append_cons_of_mem hm
      rw [rangeOfToken_append hs] at h
      obtain ⟨first, hf, h⟩ := Outcome.bind_eq_ok_iff.mp h
      obtain ⟨last, hl, h⟩ := Outcome.bind_eq_ok_iff.mp h
      obtain ⟨ds, vs, -⟩ := boundOfToken_eq_ok_iff.mp hf
      obtain ⟨dt, vt, -⟩ := boundOfToken_eq_ok_iff.mp hl
      split at h
      · cases h
      · rename_i hle
        split at h
        · cases h
        · rename_i hlt
          cases h
          exact ⟨start, stop, first, last, rfl, ds, dt, vs, vt, Nat.le_of_not_lt hle,
            Nat.lt_of_not_le hlt, rfl⟩
    · rw [rangeOfToken_of_not_mem hm] at h
      cases h
  · rintro ⟨start, stop, first, last, rfl, hs, ht, hf, hl, hle, hlt, rfl⟩
    have h₁ : boundOfToken .startNotNumber start = .ok first :=
      boundOfToken_eq_ok_iff.mpr ⟨hs, hf, by omega⟩
    have h₂ : boundOfToken .endNotNumber stop = .ok last :=
      boundOfToken_eq_ok_iff.mpr ⟨ht, hl, by omega⟩
    rw [rangeOfToken_append (not_mem_minus hs), h₁, h₂, Outcome.ok_bind, Outcome.ok_bind,
      if_neg (Nat.not_lt.mpr hle), if_neg (Nat.not_le.mpr hlt)]

theorem not_isFixedBit_of_range {start stop : List Char} (hs : IsDecimal start)
    (ht : IsDecimal stop) : (start ++ '-' :: stop).any isFixedBit = false := by
  rw [List.any_eq_false]
  intro c hc
  rcases List.mem_append.mp hc with hc | hc
  · simp [isFixedBit_of_isDigit (hs.2 c hc)]
  · rcases List.mem_cons.mp hc with rfl | hc
    · simp [isFixedBit]
    · simp [isFixedBit_of_isDigit (ht.2 c hc)]

theorem ofToken_eq_ok_iff {token : String} {p : Piece} :
    ofToken token = .ok p ↔ Spells token.toList p := by
  unfold ofToken
  constructor
  · intro h
    split at h
    · rename_i hf
      obtain ⟨c, hc, -⟩ := List.any_eq_true.mp hf
      obtain ⟨hall, hl, rfl⟩ := constOfToken_eq_ok_iff.mp (Outcome.mapError_eq_ok_iff.mp h)
      exact .const (List.ne_nil_of_mem hc) hall hl
    · obtain ⟨start, stop, first, last, he, hs, ht, hf, hl, hle, hlt, rfl⟩ :=
        rangeOfToken_eq_ok_iff.mp (Outcome.mapError_eq_ok_iff.mp h)
      rw [he]
      exact .bits hs ht hf hl hle hlt
  · generalize token.toList = cs
    intro h
    cases h with
    | const hne hall hl =>
      obtain ⟨c, hc⟩ := List.exists_mem_of_ne_nil _ hne
      rw [if_pos (List.any_eq_true.mpr ⟨c, hc, isFixedBit_iff.mpr (hall c hc)⟩)]
      exact Outcome.mapError_eq_ok_iff.mpr (constOfToken_eq_ok_iff.mpr ⟨hall, hl, rfl⟩)
    | bits hs ht hf hl hle hlt =>
      rw [if_neg (by simp [not_isFixedBit_of_range hs ht])]
      exact Outcome.mapError_eq_ok_iff.mpr
        (rangeOfToken_eq_ok_iff.mpr ⟨_, _, _, _, rfl, hs, ht, hf, hl, hle, hlt, rfl⟩)

end BitLayout.Piece
