import Mathlib.Data.List.TakeWhile
import BitLayout.Proofs.Digits
import BitLayout.Proofs.Outcome
import BitLayout.WordText

/-! # The grammar of written words

What is left of a text without surrounding blanks, underscores and capitals announces its base
by a mark, or is decimal. It is a word when the digits of that base follow, one at least, and
their number is below `2 ^ 64`. Otherwise the lack of digits is reported before a sign, and a
sign before anything that is wrong with the digits.
-/

namespace BitLayout

namespace Text

/-- The row neither begins nor ends with a blank, and on either side of it the text has blanks
only. -/
structure Trims (text body : List Char) : Prop where
  surrounded : ∃ front back, text = front ++ body ++ back ∧ (∀ c ∈ front, isBlank c = true) ∧
    ∀ c ∈ back, isBlank c = true
  head : ∀ c ∈ body.head?, isBlank c = false
  getLast : ∀ c ∈ body.getLast?, isBlank c = false

variable {cs text body front back : List Char}

theorem head?_dropWhile (p : Char → Bool) : ∀ c ∈ (cs.dropWhile p).head?, p c = false := by
  intro c hc
  have h := List.head?_dropWhile_not p cs
  rw [Option.mem_def.mp hc] at h
  simpa using h

theorem dropWhile_eq_self {p : Char → Bool} (h : ∀ c ∈ cs.head?, p c = false) :
    cs.dropWhile p = cs := by
  cases cs with
  | nil => rfl
  | cons c cs => rw [List.dropWhile_cons_of_neg (by simp [h c rfl])]

theorem trimEnd_append (hb : ∀ c ∈ back, isBlank c = true)
    (hl : ∀ c ∈ body.getLast?, isBlank c = false) : trimEnd (body ++ back) = body := by
  rw [trimEnd, List.reverse_append, List.dropWhile_append_of_pos (by simpa using hb),
    dropWhile_eq_self (by simpa using hl), List.reverse_reverse]

theorem exists_trimEnd (cs : List Char) : ∃ back, cs = trimEnd cs ++ back ∧
    (∀ c ∈ back, isBlank c = true) ∧ ∀ c ∈ (trimEnd cs).getLast?, isBlank c = false := by
  refine ⟨(cs.reverse.takeWhile isBlank).reverse, ?_, fun c hc => ?_, ?_⟩
  · rw [trimEnd, ← List.reverse_append, List.takeWhile_append_dropWhile, List.reverse_reverse]
  · exact List.mem_takeWhile_imp (List.mem_reverse.mp hc)
  · rw [trimEnd, List.getLast?_reverse]
    exact head?_dropWhile isBlank

/-- Trimming leaves the only row that is surrounded by all the blanks. -/
theorem trim_eq_iff : trim text = body ↔ Trims text body := by
  constructor
  · rintro rfl
    obtain ⟨back, he, hb, hl⟩ := exists_trimEnd (text.dropWhile isBlank)
    refine ⟨⟨text.takeWhile isBlank, back, ?_, fun c hc => List.mem_takeWhile_imp hc, hb⟩, ?_, hl⟩
    · rw [trim, List.append_assoc, ← he, List.takeWhile_append_dropWhile]
    · intro c (hc : c ∈ (trimEnd (text.dropWhile isBlank)).head?)
      have hm : c ∈ (text.dropWhile isBlank).head? := by
        rw [he, List.head?_append, Option.mem_def.mp hc]
        rfl
      exact head?_dropWhile isBlank c hm
  · rintro ⟨⟨front, back, rfl, hf, hb⟩, hh, hl⟩
    rw [trim, List.append_assoc, List.dropWhile_append_of_pos hf]
    cases body with
    | nil =>
      rw [List.nil_append, List.dropWhile_eq_nil_iff.mpr hb]
      rfl
    | cons c cs =>
      rw [dropWhile_eq_self (by simpa using hh), trimEnd_append hb hl]

end Text

namespace Word

open Text.Numeral (value LeadingRun)

inductive Base where
  | binary
  | octal
  | decimal
  | hexadecimal
deriving DecidableEq, Repr

def Base.radix : Base → Nat
  | binary => 2
  | octal => 8
  | decimal => 10
  | hexadecimal => 16

def Base.mark : Base → List Char
  | binary => ['0', 'b']
  | octal => ['0', 'o']
  | decimal => []
  | hexadecimal => ['0', 'x']

/-- The base that a cleaned text announces, and what stands behind its mark. -/
inductive Announces : List Char → Base → List Char → Prop
  | marked {base : Base} (rest : List Char) : base ≠ .decimal →
      Announces (base.mark ++ rest) base rest
  | plain {rest : List Char} : (∀ base : Base, base ≠ .decimal → ¬ base.mark <+: rest) →
      Announces rest .decimal rest

/-- The number that a cleaned text spells: the mark of a base, if it has one, and digits. -/
def Spells (cs : List Char) (v : Nat) : Prop :=
  ∃ (base : Base) (digits : List Nat), cs = base.mark ++ digits.map Nat.digitChar ∧
    digits ≠ [] ∧ (∀ d ∈ digits, d < base.radix) ∧ value base.radix digits = v

/-- Why a text is no word. The sign is looked for behind the mark, and the number is that of the
longest run of digits there. -/
inductive Refused (text : String) : WordError → Prop
  | missingDigits {base : Base} : Announces (clean text) base [] →
      Refused text (.missingDigits text)
  | signed {base : Base} {sign : Char} {rest : List Char} :
      Announces (clean text) base (sign :: rest) → sign = '+' ∨ sign = '-' →
      Refused text (.signed text)
  | tooLarge {base : Base} {row rest : List Char} {digits : List Nat} :
      Announces (clean text) base row → LeadingRun base.radix row digits rest →
      2 ^ 64 ≤ value base.radix digits → Refused text (.badDigits text .tooLarge)
  | invalidDigit {base : Base} {row rest : List Char} {digits : List Nat} :
      Announces (clean text) base row → row ≠ [] → (∀ c ∈ row.head?, ¬ (c = '+' ∨ c = '-')) →
      LeadingRun base.radix row digits rest → value base.radix digits < 2 ^ 64 → rest ≠ [] →
      Refused text (.badDigits text .invalidDigit)

variable {text : String} {cs row rest : List Char} {base : Base} {digits : List Nat} {v : Nat}
  {e : WordError}

theorem Base.radix_le (base : Base) : base.radix ≤ 16 := by
  cases base <;> decide

theorem Base.exists_not_digit (base : Base) (h : base ≠ .decimal) :
    ∃ c ∈ base.mark, c.isDigit = false := by
  cases base with
  | binary => exact ⟨'b', by simp [mark], rfl⟩
  | octal => exact ⟨'o', by simp [mark], rfl⟩
  | decimal => exact absurd rfl h
  | hexadecimal => exact ⟨'x', by simp [mark], rfl⟩

theorem splitBase_eq (h : Announces cs base row) : splitBase cs = (base.radix, row) := by
  cases h with
  | marked _ hb =>
    cases base with
    | decimal => exact absurd rfl hb
    | _ => rfl
  | plain h =>
    unfold splitBase
    split
    · exact absurd (List.prefix_append _ _) (h .hexadecimal (by decide))
    · exact absurd (List.prefix_append _ _) (h .octal (by decide))
    · exact absurd (List.prefix_append _ _) (h .binary (by decide))
    · rfl

theorem exists_announces (cs : List Char) : ∃ base row, Announces cs base row := by
  by_cases h : ∃ base : Base, base ≠ .decimal ∧ base.mark <+: cs
  · obtain ⟨base, hb, row, rfl⟩ := h
    exact ⟨base, row, .marked row hb⟩
  · exact ⟨.decimal, cs, .plain fun base hb hp => h ⟨base, hb, hp⟩⟩

theorem Announces.eq_append (h : Announces cs base row) : cs = base.mark ++ row := by
  cases h <;> rfl

/-- No row of digits has a mark in front of it that is not its own. -/
theorem announces_digits (hd : ∀ d ∈ digits, d < base.radix) :
    Announces (base.mark ++ digits.map Nat.digitChar) base (digits.map Nat.digitChar) := by
  by_cases hb : base = .decimal
  · subst hb
    refine .plain fun other ho hp => ?_
    obtain ⟨c, hc, hn⟩ := other.exists_not_digit ho
    obtain ⟨d, hm, rfl⟩ := List.mem_map.mp (hp.mem hc)
    rw [Nat.isDigit_digitChar] at hn
    exact of_decide_eq_false hn (hd d hm)
  · exact .marked _ hb

theorem isUpper_of_mem_clean (text : String) : ∀ c ∈ clean text, c.isUpper = false := by
  intro c hc
  obtain ⟨b, -, rfl⟩ := List.mem_map.mp hc
  exact Text.Numeral.isUpper_toLower b

/-- Behind the mark, the reading ends as the leading run of digits and its rest tell. -/
theorem ofText_eq (ha : Announces (clean text) base row) (hne : row ≠ [])
    (hs : ∀ c ∈ row.head?, ¬ (c = '+' ∨ c = '-')) (hr : LeadingRun base.radix row digits rest) :
    ofText text =
      if 2 ^ 64 ≤ value base.radix digits then .error (.badDigits text .tooLarge)
      else if rest = [] then .ok (BitVec.ofNat 64 (value base.radix digits))
      else .error (.badDigits text .invalidDigit) := by
  have small : ∀ c ∈ row, c.isUpper = false := by
    intro c hc
    refine isUpper_of_mem_clean text c ?_
    rw [ha.eq_append]
    exact List.mem_append_right _ hc
  have hlimit : limit = 2 ^ 64 := rfl
  have hread := Text.Numeral.read_eq base.radix_le small hr (Nat.two_pow_pos 64)
  rw [ofText, splitBase_eq ha]
  split
  · rename_i h
    cases h
    exact absurd rfl hne
  · rename_i h
    cases h
    exact absurd (.inl rfl) (hs '+' rfl)
  · rename_i h
    cases h
    exact absurd (.inr rfl) (hs '-' rfl)
  · rename_i h
    cases h
    rw [hlimit, hread]
    split
    · rfl
    · split <;> rfl

theorem ofText_missing (ha : Announces (clean text) base []) :
    ofText text = .error (.missingDigits text) := by
  rw [ofText, splitBase_eq ha]

theorem ofText_signed {sign : Char} (ha : Announces (clean text) base (sign :: rest))
    (hs : sign = '+' ∨ sign = '-') : ofText text = .error (.signed text) := by
  rw [ofText, splitBase_eq ha]
  rcases hs with rfl | rfl <;> rfl

theorem unsigned_of_leadingRun (hr : LeadingRun base.radix row digits rest) (hd : digits ≠ []) :
    row ≠ [] ∧ ∀ c ∈ row.head?, ¬ (c = '+' ∨ c = '-') := by
  have unsigned : ∀ d < 16, ¬ (Nat.digitChar d = '+' ∨ Nat.digitChar d = '-') := by decide
  obtain ⟨d, ds, rfl⟩ := List.exists_cons_of_ne_nil hd
  rw [hr.eq]
  refine ⟨by simp, ?_⟩
  rintro _ ⟨⟩
  exact unsigned d (Nat.lt_of_lt_of_le (hr.lt d List.mem_cons_self) base.radix_le)

theorem ofText_of_spells (h : Spells (clean text) v) (hv : v < 2 ^ 64) :
    ofText text = .ok (BitVec.ofNat 64 v) := by
  obtain ⟨base, digits, hc, hd, hlt, rfl⟩ := h
  have ha := announces_digits hlt
  rw [← hc] at ha
  have hr : LeadingRun base.radix (digits.map Nat.digitChar) digits [] :=
    ⟨hlt, (List.append_nil _).symm, by simp⟩
  obtain ⟨hne, hs⟩ := unsigned_of_leadingRun hr hd
  rw [ofText_eq ha hne hs hr, if_neg (Nat.not_le.mpr hv), if_pos rfl]

theorem ofText_of_refused (h : Refused text e) : ofText text = .error e := by
  cases h with
  | missingDigits ha => exact ofText_missing ha
  | signed ha hs => exact ofText_signed ha hs
  | @tooLarge base row rest digits ha hr hv =>
    have hd : digits ≠ [] := by
      rintro rfl
      simp [value] at hv
    obtain ⟨hne, hs⟩ := unsigned_of_leadingRun hr hd
    rw [ofText_eq ha hne hs hr, if_pos hv]
  | invalidDigit ha hne hs hr hv hrest =>
    rw [ofText_eq ha hne hs hr, if_neg (Nat.not_le.mpr hv), if_neg hrest]

theorem spells_or_refused (text : String) :
    (∃ v < 2 ^ 64, Spells (clean text) v) ∨ ∃ e, Refused text e := by
  obtain ⟨base, row, ha⟩ := exists_announces (clean text)
  obtain ⟨digits, rest, hr⟩ := Text.Numeral.exists_leadingRun base.radix row
  by_cases hne : row = []
  · subst hne
    exact .inr ⟨_, .missingDigits ha⟩
  by_cases hs : ∀ c ∈ row.head?, ¬ (c = '+' ∨ c = '-')
  · by_cases hv : 2 ^ 64 ≤ value base.radix digits
    · exact .inr ⟨_, .tooLarge ha hr hv⟩
    · by_cases hrest : rest = []
      · subst hrest
        have hrow : row = digits.map Nat.digitChar := by simpa using hr.eq
        refine .inl ⟨_, Nat.lt_of_not_le hv, base, digits, ?_, ?_, hr.lt, rfl⟩
        · rw [ha.eq_append, hrow]
        · rintro rfl
          exact hne hrow
      · exact .inr ⟨_, .invalidDigit ha hne hs hr (Nat.lt_of_not_le hv) hrest⟩
  · obtain ⟨c, cs, rfl⟩ := List.exists_cons_of_ne_nil hne
    have hc : c = '+' ∨ c = '-' := by simpa [Classical.or_iff_not_imp_left] using hs
    exact .inr ⟨_, .signed ha hc⟩

theorem ofText_eq_error_iff : ofText text = .error e ↔ Refused text e := by
  constructor
  · intro h
    rcases spells_or_refused text with ⟨v, hv, hw⟩ | ⟨f, hf⟩
    · rw [ofText_of_spells hw hv] at h
      cases h
    · rw [ofText_of_refused hf] at h
      cases h
      exact hf
  · exact ofText_of_refused

theorem ofText_eq_ok_iff {w : Word} : ofText text = .ok w ↔ Spells (clean text) w.toNat := by
  constructor
  · intro h
    rcases spells_or_refused text with ⟨v, hv, hw⟩ | ⟨f, hf⟩
    · rw [ofText_of_spells hw hv] at h
      cases h
      rwa [BitVec.toNat_ofNat, Nat.mod_eq_of_lt hv]
    · rw [ofText_of_refused hf] at h
      cases h
  · intro h
    rw [ofText_of_spells h w.isLt, BitVec.ofNat_toNat, BitVec.setWidth_eq]

/-- What is left of a text when the blanks around it and the underscores are dropped and its
letters lowered is a word when it spells a number below `2 ^ 64`, by one digit or more behind
the mark of their base. Any other text is refused with the first fault that it has. -/
theorem ofText_outcome (text : String) :
    (∃ body, Text.Trims text.toList body ∧
      clean text = (body.filter (· != '_')).map Char.toLower) ∧
    (∀ v, (∃ w, ofText text = .ok w ∧ w.toNat = v) ↔ Spells (clean text) v ∧ v < 2 ^ 64) ∧
    ∀ e, ofText text = .error e ↔ Refused text e := by
  refine ⟨⟨_, Text.trim_eq_iff.mp rfl, rfl⟩, fun v => ⟨?_, ?_⟩, fun e => ofText_eq_error_iff⟩
  · rintro ⟨w, hw, rfl⟩
    exact ⟨ofText_eq_ok_iff.mp hw, w.isLt⟩
  · rintro ⟨hs, hv⟩
    refine ⟨_, ofText_of_spells hs hv, ?_⟩
    rw [BitVec.toNat_ofNat, Nat.mod_eq_of_lt hv]

end Word

end BitLayout
