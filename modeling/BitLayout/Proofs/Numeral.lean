import Mathlib.Tactic.Ring
import BitLayout.Text.Numeral

/-! # Positional values

The value of a row of digits in front of another is moved up by the length of the
other. Rows of digits below the base stay below its power, and a row is determined by its
length and its number. So what is written for a number is its numeral, and filling a
numeral with zeros gives the row of that length.
-/

namespace BitLayout.Text.Numeral

variable {base : Nat}

theorem foldl_digits (base v : Nat) (digits : List Nat) :
    digits.foldl (fun v d => v * base + d) v = v * base ^ digits.length + value base digits := by
  induction digits generalizing v with
  | nil => simp [value]
  | cons d ds ih =>
    have hv := ih (v * base + d)
    have h0 := ih (0 * base + d)
    simp only [value, List.foldl_cons, List.length_cons] at hv h0 ⊢
    rw [hv, h0]
    ring

theorem value_cons (d : Nat) (digits : List Nat) :
    value base (d :: digits) = d * base ^ digits.length + value base digits := by
  rw [value, List.foldl_cons, foldl_digits, Nat.zero_mul, Nat.zero_add]

theorem value_append (front back : List Nat) :
    value base (front ++ back) = value base front * base ^ back.length + value base back := by
  rw [value, List.foldl_append, foldl_digits, ← value]

theorem value_lt (digits : List Nat) (h : ∀ d ∈ digits, d < base) :
    value base digits < base ^ digits.length := by
  induction digits with
  | nil => simp [value]
  | cons d ds ih =>
    have hd := h d List.mem_cons_self
    have hs := ih fun e he => h e (List.mem_cons_of_mem _ he)
    rw [value_cons, List.length_cons]
    calc d * base ^ ds.length + value base ds
        < d * base ^ ds.length + base ^ ds.length := Nat.add_lt_add_left hs _
      _ = (d + 1) * base ^ ds.length := by ring
      _ ≤ base * base ^ ds.length := Nat.mul_le_mul_right _ hd
      _ = base ^ (ds.length + 1) := by ring

theorem decimal_eq_ofDigitChars (cs : List Char) : decimal cs = Nat.ofDigitChars 10 cs 0 := by
  simp only [decimal, value, decimalDigits, List.foldl_map, Nat.ofDigitChars_eq_foldl,
    Nat.mul_comm 10]

@[simp] theorem decimal_toDigits (n : Nat) : decimal (Nat.toDigits 10 n) = n := by
  rw [decimal_eq_ofDigitChars, Nat.ofDigitChars_ten_toDigits]

theorem value_inj {front back : List Nat} (hl : front.length = back.length)
    (hf : ∀ d ∈ front, d < base) (hb : ∀ d ∈ back, d < base)
    (h : value base front = value base back) : front = back := by
  induction front generalizing back with
  | nil => exact (List.length_eq_zero_iff.mp hl.symm).symm
  | cons d ds ih =>
    cases back with
    | nil => simp at hl
    | cons e es =>
      rw [List.forall_mem_cons] at hf hb
      have hlen : ds.length = es.length := by simpa using hl
      have hd := value_lt ds hf.2
      have he := value_lt es hb.2
      rw [value_cons, value_cons, ← hlen] at h
      rw [← hlen] at he
      -- the rest is below the power, so cutting it off leaves the first digit
      have cut {c v : Nat} (hv : v < base ^ ds.length) :
          (c * base ^ ds.length + v) / base ^ ds.length = c := by
        rw [Nat.add_comm, Nat.add_mul_div_right _ _ (Nat.zero_lt_of_lt hv), Nat.div_eq_of_lt hv,
          Nat.zero_add]
      obtain rfl : d = e := by rw [← cut (c := d) hd, h, cut he]
      rw [ih hlen hf.2 hb.2 (Nat.add_left_cancel h)]

/-- The digits of a number, most significant first: one at least, and no zero in front of
another digit. -/
structure Canonical (base n : Nat) (digits : List Nat) : Prop where
  lt : ∀ d ∈ digits, d < base
  value_eq : value base digits = n
  ne_nil : digits ≠ []
  head_ne : digits.head? = some 0 → digits = [0]

/-- The text is the numeral of a number, with small letters for the digits from ten on. -/
def Denotes (base : Nat) (text : String) (n : Nat) : Prop :=
  ∃ digits, Canonical base n digits ∧ text = String.ofList (digits.map Nat.digitChar)

theorem value_concat (digits : List Nat) (d : Nat) :
    value base (digits ++ [d]) = value base digits * base + d := by
  simp [value]

theorem Canonical.concat {n : Nat} {digits : List Nat} (h : Canonical base n digits) (hn : 0 < n)
    {d : Nat} (hd : d < base) : Canonical base (n * base + d) (digits ++ [d]) where
  lt := List.forall_mem_append.mpr ⟨h.lt, List.forall_mem_singleton.mpr hd⟩
  value_eq := by rw [value_concat, h.value_eq]
  ne_nil := by simp
  head_ne h0 := by
    have hhead : digits.head? = some 0 := by
      rwa [List.head?_append, Option.or_of_isSome (by simp [h.ne_nil])] at h0
    have hz : n = 0 := by
      rw [← h.value_eq, h.head_ne hhead]
      simp [value]
    omega

theorem canonical_single {d : Nat} (hd : d < base) : Canonical base d [d] where
  lt := List.forall_mem_singleton.mpr hd
  value_eq := by simp [value]
  ne_nil := by simp
  head_ne h0 := by simpa using h0

theorem exists_canonical (hb : 1 < base) (n : Nat) :
    ∃ digits, Canonical base n digits ∧ Nat.toDigits base n = digits.map Nat.digitChar := by
  induction n using Nat.strongRecOn with
  | ind n ih =>
    by_cases h : n < base
    · exact ⟨[n], canonical_single h, Nat.toDigits_of_lt_base h⟩
    · have hle : base ≤ n := Nat.le_of_not_lt h
      obtain ⟨digits, hc, ht⟩ := ih (n / base) (Nat.div_lt_self (by omega) hb)
      have hlast := hc.concat (Nat.div_pos hle (by omega)) (Nat.mod_lt n (by omega))
      rw [Nat.mul_comm, Nat.div_add_mod] at hlast
      refine ⟨_, hlast, ?_⟩
      rw [Nat.toDigits_of_base_le hb hle, ht, List.map_append, List.map_singleton]

theorem denotes_write (hb : 1 < base) (n : Nat) : Denotes base (write base n) n := by
  obtain ⟨digits, hc, ht⟩ := exists_canonical hb n
  exact ⟨digits, hc, by rw [write, ht]⟩

theorem value_replicate (count : Nat) (digits : List Nat) :
    value base (List.replicate count 0 ++ digits) = value base digits := by
  induction count with
  | zero => rfl
  | succ count ih =>
    rw [List.replicate_succ, List.cons_append, value_cons, Nat.zero_mul, Nat.zero_add, ih]

theorem digitValue?_digitChar {d : Nat} (h : d < 16) : digitValue? (Nat.digitChar d) = some d := by
  have all : ∀ d < 16, digitValue? (Nat.digitChar d) = some d := by decide
  exact all d h

theorem isAlphanum_digitChar {d : Nat} (h : d < 16) : (Nat.digitChar d).isAlphanum = true := by
  have all : ∀ d < 16, (Nat.digitChar d).isAlphanum = true := by decide
  exact all d h

theorem Denotes.isAlphanum {text : String} {n : Nat} (hb : base ≤ 16) (h : Denotes base text n) :
    ∀ c ∈ text.toList, c.isAlphanum = true := by
  obtain ⟨digits, hc, rfl⟩ := h
  intro c hm
  rw [String.toList_ofList] at hm
  obtain ⟨d, hd, rfl⟩ := List.mem_map.mp hm
  exact isAlphanum_digitChar (Nat.lt_of_lt_of_le (hc.lt d hd) hb)

theorem Denotes.unique {text : String} {n m : Nat} (hb : base ≤ 16) (h : Denotes base text n)
    (k : Denotes base text m) : n = m := by
  have digits {ds : List Nat} (hd : ∀ d ∈ ds, d < base) :
      (ds.map Nat.digitChar).filterMap digitValue? = ds := by
    induction ds with
    | nil => rfl
    | cons d ds ih =>
      rw [List.forall_mem_cons] at hd
      have hv := digitValue?_digitChar (Nat.lt_of_lt_of_le hd.1 hb)
      rw [List.map_cons, List.filterMap_cons_some hv, ih hd.2]
  obtain ⟨ds, hc, rfl⟩ := h
  obtain ⟨es, he, ht⟩ := k
  rw [String.ofList_inj] at ht
  rw [← hc.value_eq, ← he.value_eq, ← digits hc.lt, ht, digits he.lt]

/-- Where one character that is no digit ends two rows of digits, the rows are the same. -/
theorem append_stop_inj {stop : Char} (hs : stop.isAlphanum = false) {a b r t : List Char}
    (ha : ∀ c ∈ a, c.isAlphanum = true) (hb : ∀ c ∈ b, c.isAlphanum = true)
    (h : a ++ stop :: r = b ++ stop :: t) : a = b ∧ r = t := by
  have cut {digits : List Char} (hd : ∀ c ∈ digits, c.isAlphanum = true) (rest : List Char) :
      (digits ++ stop :: rest).takeWhile Char.isAlphanum = digits := by
    rw [List.takeWhile_append_of_pos hd, List.takeWhile_cons_of_neg (by simp [hs]),
      List.append_nil]
  obtain rfl : a = b := by rw [← cut ha r, h, cut hb t]
  exact ⟨rfl, (List.cons.inj (List.append_cancel_left h)).2⟩

theorem numeral_stop_inj {n m : Nat} {a b : String} {stop : Char} {r t : List Char}
    (hbase : base ≤ 16) (hs : stop.isAlphanum = false) (ha : Denotes base a n)
    (hb : Denotes base b m) (h : a.toList ++ stop :: r = b.toList ++ stop :: t) :
    n = m ∧ r = t := by
  obtain ⟨he, hr⟩ := append_stop_inj hs (ha.isAlphanum hbase) (hb.isAlphanum hbase) h
  rw [String.toList_inj] at he
  exact ⟨ha.unique hbase (he ▸ hb), hr⟩

theorem exists_zeros (hb : 1 < base) {digits : List Nat} (hne : digits ≠ [])
    (hd : ∀ d ∈ digits, d < base) : ∃ zeros, digits.map Nat.digitChar =
      List.replicate zeros '0' ++ Nat.toDigits base (value base digits) := by
  obtain ⟨ds, hc, ht⟩ := exists_canonical hb (value base digits)
  have hle : ds.length ≤ digits.length := by
    have := (Nat.length_toDigits_le_iff hb (List.length_pos_iff.mpr hne)).mpr (value_lt digits hd)
    simpa [ht] using this
  have row : List.replicate (digits.length - ds.length) 0 ++ ds = digits := by
    refine value_inj ?_ ?_ hd ?_
    · rw [List.length_append, List.length_replicate]
      omega
    · intro d h
      rcases List.mem_append.mp h with h | h
      · rw [List.eq_of_mem_replicate h]
        omega
      · exact hc.lt d h
    · rw [value_replicate, hc.value_eq]
  refine ⟨digits.length - ds.length, ?_⟩
  have hmap := congrArg (List.map Nat.digitChar) row
  rw [List.map_append, List.map_replicate] at hmap
  rw [ht, ← hmap]
  rfl

/-- Filled with zeros, the digits of a number are the row of their length that stands for it. -/
theorem writePadded_eq (hb : 1 < base) {digits : List Nat} (hne : digits ≠ [])
    (hd : ∀ d ∈ digits, d < base) :
    writePadded base digits.length (value base digits) =
      String.ofList (digits.map Nat.digitChar) := by
  obtain ⟨zeros, hz⟩ := exists_zeros hb hne hd
  have hlen := congrArg List.length hz
  rw [List.length_map, List.length_append, List.length_replicate] at hlen
  rw [writePadded, List.leftpad, hlen, Nat.add_sub_cancel, hz]

end BitLayout.Text.Numeral
