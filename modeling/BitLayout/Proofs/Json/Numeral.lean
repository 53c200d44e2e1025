import BitLayout.Json.Numeral
import BitLayout.Json.Writer
import BitLayout.Proofs.Numeral
import BitLayout.Proofs.Outcome

/-! # Written numbers

A number below the limit of words is written with its decimal digits and reads
back as itself, provided that what follows does not go on with it.
-/

namespace BitLayout.Json

open Text.Numeral (value decimal decimalDigits value_cons value_lt decimal_toDigits)

/-- What may follow a value that is written inside a container, or nothing. -/
def Stops (rest : List Char) : Prop := rest = [] ∨ ∃ cs, rest = ',' :: cs ∨ rest = '\n' :: cs

variable {rest : List Char} {n : Nat}

theorem takeWhile_digits {ds : List Char} (hd : ∀ c ∈ ds, c.isDigit = true) (h : Stops rest) :
    (ds ++ rest).takeWhile Char.isDigit = ds ∧ (ds ++ rest).dropWhile Char.isDigit = rest := by
  rw [List.takeWhile_append_of_pos hd, List.dropWhile_append_of_pos hd]
  rcases h with rfl | ⟨cs, rfl | rfl⟩ <;> simp

theorem isDigit_toDigits : ∀ c ∈ Nat.toDigits 10 n, c.isDigit = true :=
  fun _ h => Nat.isDigit_of_mem_toDigits (by decide) (by decide) h

theorem readDigits_toDigits (h : Stops rest) :
    readDigits (Nat.toDigits 10 n ++ rest) = .ok (decimalDigits (Nat.toDigits 10 n), rest) := by
  obtain ⟨ht, hd⟩ := takeWhile_digits isDigit_toDigits h
  obtain ⟨c, ds, he⟩ := List.exists_cons_of_ne_nil (Nat.toDigits_ne_nil (n := n) (b := 10))
  rw [readDigits, ht, hd, he]

theorem decimalDigits_lt {cs : List Char} (h : ∀ c ∈ cs, c.isDigit = true) :
    ∀ d ∈ decimalDigits cs, d < 10 := by
  intro d hd
  obtain ⟨c, hc, rfl⟩ := List.mem_map.mp hd
  have := h c hc
  rw [Char.isDigit, Bool.and_eq_true, decide_eq_true_eq, decide_eq_true_eq] at this
  have hle : c.toNat ≤ 57 := this.2
  change c.toNat - 48 < 10
  omega

theorem decimalDigits_toDigits_ne (n d : Nat) (ds : List Nat) :
    decimalDigits (Nat.toDigits 10 n) ≠ 0 :: d :: ds := by
  intro h
  have hv : value 10 (0 :: d :: ds) = n := h ▸ decimal_toDigits n
  have hlt : value 10 (d :: ds) < 10 ^ (d :: ds).length := by
    apply value_lt
    intro e he
    refine decimalDigits_lt (isDigit_toDigits (n := n)) e ?_
    exact h ▸ List.mem_cons_of_mem _ he
  have hlen : (Nat.toDigits 10 n).length = ds.length + 2 := by
    have hl := congrArg List.length h
    rwa [decimalDigits, List.length_map] at hl
  rw [value_cons, Nat.zero_mul, Nat.zero_add] at hv
  rw [hv, List.length_cons] at hlt
  have := (Nat.length_toDigits_le_iff (by decide) (Nat.succ_pos ds.length)).mpr hlt
  omega

theorem readWhole_toDigits (h : Stops rest) :
    readWhole (Nat.toDigits 10 n ++ rest) = .ok (decimalDigits (Nat.toDigits 10 n), rest) := by
  rw [readWhole, readDigits_toDigits h, Outcome.ok_bind]
  dsimp only
  split
  · rename_i he
    exact absurd he (decimalDigits_toDigits_ne n _ _)
  · rfl

theorem readFraction_of_stops (h : Stops rest) : readFraction rest = .ok ([], rest) := by
  rcases h with rfl | ⟨cs, rfl | rfl⟩ <;> rfl

theorem readExponent_of_stops (h : Stops rest) : readExponent rest = .ok (0, rest) := by
  rcases h with rfl | ⟨cs, rfl | rfl⟩ <;> rfl

theorem absorb_eq {v : Nat} {ds : List Nat}
    (h : v * 10 ^ ds.length + value 10 ds < Word.limit) :
    Magnitude.absorb v ds = (v * 10 ^ ds.length + value 10 ds, []) := by
  induction ds generalizing v with
  | nil => simp [Magnitude.absorb, value]
  | cons d ds ih =>
    have he : v * 10 ^ (d :: ds).length + value 10 (d :: ds) =
        (v * 10 + d) * 10 ^ ds.length + value 10 ds := by
      rw [value_cons, List.length_cons]
      ring
    rw [he] at h ⊢
    have hd : v * 10 + d < Word.limit := by
      have hp : 0 < 10 ^ ds.length := Nat.pow_pos (by decide)
      have hle := Nat.le_mul_of_pos_right (v * 10 + d) hp
      omega
    rw [Magnitude.absorb, if_pos hd, ih h]

/-- A word is no number larger than the doubles. -/
theorem overflows_word {ds : List Nat} (h : value 10 ds < Word.limit) :
    Magnitude.overflows ds [] 0 = false := by
  have ha : Magnitude.absorb 0 ds = (value 10 ds, []) := by
    have h0 : 0 * 10 ^ ds.length + value 10 ds < Word.limit := by simpa using h
    simpa using absorb_eq h0
  simp [Magnitude.overflows, ha, Magnitude.absorb, Magnitude.leastScale]

theorem readUnsigned_toDigits (hn : n < Word.limit) (h : Stops rest) :
    readUnsigned false (Nat.toDigits 10 n ++ rest) = .ok (⟨false, n, 0⟩, rest) := by
  have hv : value 10 (decimalDigits (Nat.toDigits 10 n)) = n := decimal_toDigits n
  have ho : Magnitude.overflows (decimalDigits (Nat.toDigits 10 n)) [] 0 = false :=
    overflows_word (by rwa [hv])
  rw [readUnsigned, readWhole_toDigits h, Outcome.ok_bind]
  simp only [readFraction_of_stops h, readExponent_of_stops h, Outcome.ok_bind, ho,
    List.append_nil, hv]
  rfl

theorem readNumber_toDigits (hn : n < Word.limit) (h : Stops rest) :
    readNumber (Nat.toDigits 10 n ++ rest) = .ok (⟨false, n, 0⟩, rest) := by
  rw [← readUnsigned_toDigits hn h]
  obtain ⟨c, ds, he⟩ := List.exists_cons_of_ne_nil (Nat.toDigits_ne_nil (n := n) (b := 10))
  have hc : c.isDigit = true := isDigit_toDigits (n := n) c (he ▸ List.mem_cons_self)
  rw [he, List.cons_append, readNumber]
  intro tail hm
  cases hm
  exact absurd hc (by decide)

end BitLayout.Json
