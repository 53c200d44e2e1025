import BitLayout.Proofs.Numeral

/-! # Reading digits

A row of characters begins with a longest run of digits of a base, small letters from ten on.
Reading a row without capitals below a limit fails over the size of the number when the run
reaches the limit, and otherwise over what stands behind the run, if anything does.
-/

namespace BitLayout.Text.Numeral

/-- The longest run of digits at the front of a row, and what stands behind it. -/
structure LeadingRun (base : Nat) (cs : List Char) (digits : List Nat) (rest : List Char) :
    Prop where
  lt : ∀ d ∈ digits, d < base
  eq : cs = digits.map Nat.digitChar ++ rest
  stops : ∀ c ∈ rest.head?, ∀ d < base, c ≠ Nat.digitChar d

variable {base limit d v : Nat} {c : Char} {cs rest : List Char} {digits : List Nat}

theorem isUpper_iff : c.isUpper = true ↔ 65 ≤ c.toNat ∧ c.toNat ≤ 90 := by
  delta Char.isUpper
  simp [UInt32.le_iff_toNat_le, ← Char.toNat_val]

theorem toNat_toLower (h : c.isUpper = true) : c.toLower.toNat = c.toNat + 32 := by
  have hr := isUpper_iff.mp h
  have hc : c.val ≥ 'A'.val ∧ c.val ≤ 'Z'.val := by
    simpa [UInt32.le_iff_toNat_le, ← Char.toNat_val] using hr
  delta Char.toLower
  rw [dif_pos hc, Char.toNat_mk, UInt32.toNat_add, Char.toNat_val]
  simp
  omega

theorem toLower_eq_self (h : c.isUpper = false) : c.toLower = c := by
  have hc : ¬ (c.val ≥ 'A'.val ∧ c.val ≤ 'Z'.val) := by
    rw [Bool.eq_false_iff, ne_eq, isUpper_iff] at h
    simpa [UInt32.le_iff_toNat_le, ← Char.toNat_val] using h
  delta Char.toLower
  rw [dif_neg hc]

theorem isUpper_toLower (c : Char) : c.toLower.isUpper = false := by
  cases h : c.isUpper with
  | false => rwa [toLower_eq_self h]
  | true =>
    have hr := isUpper_iff.mp h
    rw [Bool.eq_false_iff, ne_eq, isUpper_iff, toNat_toLower h]
    omega

theorem toUpper_toLower (h : c.isUpper = true) : c.toLower.toUpper = c := by
  have hr := isUpper_iff.mp h
  have hl := toNat_toLower h
  have hc : c.toLower.val ≥ 'a'.val ∧ c.toLower.val ≤ 'z'.val := by
    simp [UInt32.le_iff_toNat_le]
    omega
  apply Char.toNat_inj.mp
  delta Char.toUpper
  rw [dif_pos hc, Char.toNat_mk, UInt32.toNat_add, Char.toNat_val, hl]
  simp
  omega

theorem toNat_digitChar_letter (hl : 10 ≤ d) (hd : d < 16) : (Nat.digitChar d).toNat = 87 + d := by
  have all : ∀ d < 16, 10 ≤ d → (Nat.digitChar d).toNat = 87 + d := by decide
  exact all d hd hl

theorem isUpper_digitChar (hd : d < 16) : (Nat.digitChar d).isUpper = false := by
  have all : ∀ d < 16, (Nat.digitChar d).isUpper = false := by decide
  exact all d hd

theorem digitChar_of_digitValue? (hc : c.isUpper = false) (hd : d < 16)
    (h : digitValue? c = some d) : c = Nat.digitChar d := by
  have between {low high : Char} :
      (low ≤ c ∧ c ≤ high) ↔ low.toNat ≤ c.toNat ∧ c.toNat ≤ high.toNat := by
    simp [Char.le_def, UInt32.le_iff_toNat_le]
  simp only [digitValue?, between] at h
  apply Char.toNat_inj.mp
  split at h
  · rename_i hr
    simp at h hr
    rw [Nat.toNat_digitChar_of_lt_ten (by omega)]
    omega
  · split at h
    · rename_i hr
      simp at h hr
      rw [toNat_digitChar_letter (by omega) hd]
      omega
    · split at h
      · rename_i hr
        have hu := isUpper_iff.mpr hr
        simp [hc] at hu
      · cases h

theorem digitIn?_eq_some_iff (hb : base ≤ 16) (hc : c.isUpper = false) :
    digitIn? base c = some d ↔ d < base ∧ c = Nat.digitChar d := by
  simp only [digitIn?, Option.filter_eq_some_iff, decide_eq_true_eq]
  constructor
  · rintro ⟨h, hd⟩
    exact ⟨hd, digitChar_of_digitValue? hc (Nat.lt_of_lt_of_le hd hb) h⟩
  · rintro ⟨hd, rfl⟩
    exact ⟨digitValue?_digitChar (Nat.lt_of_lt_of_le hd hb), hd⟩

theorem digitIn?_eq_none_iff (hb : base ≤ 16) (hc : c.isUpper = false) :
    digitIn? base c = none ↔ ∀ d < base, c ≠ Nat.digitChar d := by
  rw [Option.eq_none_iff_forall_ne_some]
  simp only [ne_eq, digitIn?_eq_some_iff hb hc, not_and]

theorem exists_leadingRun (base : Nat) (cs : List Char) :
    ∃ digits rest, LeadingRun base cs digits rest := by
  induction cs with
  | nil => exact ⟨[], [], by simp, rfl, by simp⟩
  | cons c cs ih =>
    by_cases h : ∃ d < base, c = Nat.digitChar d
    · obtain ⟨d, hd, rfl⟩ := h
      obtain ⟨digits, rest, hr⟩ := ih
      refine ⟨d :: digits, rest, List.forall_mem_cons.mpr ⟨hd, hr.lt⟩, ?_, hr.stops⟩
      rw [hr.eq, List.map_cons, List.cons_append]
    · refine ⟨[], c :: cs, by simp, rfl, ?_⟩
      rintro _ ⟨⟩ d hd rfl
      exact h ⟨d, hd, rfl⟩

/-- Reading from left to right ends as the leading run and what stands behind it tell. -/
theorem readFrom_eq (hb : base ≤ 16) (hc : ∀ c ∈ cs, c.isUpper = false)
    (h : LeadingRun base cs digits rest) (hv : v < limit) :
    readFrom base limit v cs =
      if limit ≤ v * base ^ digits.length + value base digits then .error .tooLarge
      else if rest = [] then .ok (v * base ^ digits.length + value base digits)
      else .error .invalidDigit := by
  induction digits generalizing v cs with
  | nil =>
    obtain rfl : cs = rest := h.eq
    have hn : ¬ limit ≤ v * base ^ ([] : List Nat).length + value base [] := by
      simpa [value] using hv
    rw [if_neg hn]
    cases cs with
    | nil => simp [readFrom, value]
    | cons c cs =>
      have hnone := (digitIn?_eq_none_iff hb (hc c List.mem_cons_self)).mpr (h.stops c rfl)
      simp [readFrom, hnone]
  | cons d ds ih =>
    obtain ⟨hd, hds⟩ := List.forall_mem_cons.mp h.lt
    have he := h.eq
    rw [List.map_cons, List.cons_append] at he
    subst he
    have hsome := (digitIn?_eq_some_iff hb (isUpper_digitChar (Nat.lt_of_lt_of_le hd hb))).mpr
      ⟨hd, rfl⟩
    have hsum : v * base ^ (d :: ds).length + value base (d :: ds) =
        (v * base + d) * base ^ ds.length + value base ds := by
      rw [value_cons, List.length_cons]
      ring
    have hle : v * base + d ≤ v * base ^ (d :: ds).length + value base (d :: ds) := by
      have hpos : 1 ≤ base ^ ds.length := Nat.one_le_pow _ _ (Nat.zero_lt_of_lt hd)
      rw [hsum]
      calc v * base + d = (v * base + d) * 1 := (Nat.mul_one _).symm
        _ ≤ (v * base + d) * base ^ ds.length := Nat.mul_le_mul_left _ hpos
        _ ≤ _ := Nat.le_add_right _ _
    rw [readFrom, hsome]
    by_cases hlt : v * base + d < limit
    · have tail := ih (fun c hm => hc c (List.mem_cons_of_mem _ hm)) ⟨hds, rfl, h.stops⟩ hlt
      simp only [hlt, if_true, tail, hsum]
    · simp only [hlt, if_false]
      rw [if_pos (Nat.le_trans (Nat.le_of_not_lt hlt) hle)]

theorem read_eq (hb : base ≤ 16) (hc : ∀ c ∈ cs, c.isUpper = false)
    (h : LeadingRun base cs digits rest) (hl : 0 < limit) :
    read base limit cs =
      if limit ≤ value base digits then .error .tooLarge
      else if rest = [] then .ok (value base digits)
      else .error .invalidDigit := by
  simpa [read] using readFrom_eq hb hc h hl

end BitLayout.Text.Numeral
