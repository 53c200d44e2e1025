import BitLayout.Proofs.Joining
import BitLayout.Proofs.Strict
import BitLayout.Proofs.Wiring

/-! # Split tokens

Two tokens may stand in the place of one when they name its two parts, the upper part first:
the upper and the lower bits of a range, or the first and the last of some fixed bits. This
changes neither whether the source is accepted nor the value, and the strict check passes or
fails in the same way.
-/

namespace BitLayout

theorem Word.field_add (w : Word) (first low high : Nat) :
    w.field first (low + high) = w.field (first + low) high ++ w.field first low := by
  simp [field, ← List.range'_append_1]

theorem Word.span_or_span {first middle last : Nat} (hle : first ≤ middle) (hlt : middle < last)
    (h : last < 64) : span (middle + 1) last ||| span first middle = span first last := by
  refine BitVec.eq_of_getLsbD_eq fun bit _ => ?_
  rw [BitVec.getLsbD_or, getLsbD_span h, getLsbD_span h, getLsbD_span (by omega),
    ← Bool.decide_or]
  exact decide_eq_decide.mpr (by omega)

theorem Word.span_and_span {first middle last : Nat} (hlt : middle < last) (h : last < 64) :
    span (middle + 1) last &&& span first middle = 0 := by
  refine BitVec.eq_of_getLsbD_eq fun bit _ => ?_
  have apart : ¬ ((middle + 1 ≤ bit ∧ bit ≤ last) ∧ first ≤ bit ∧ bit ≤ middle) := by omega
  rw [BitVec.getLsbD_and, getLsbD_span h, getLsbD_span (by omega), ← Bool.decide_and]
  exact (decide_eq_false apart).trans BitVec.getLsbD_zero.symm

theorem Word.exists_lowestBit?_or {v w : Word} {bit : Nat} (h : v.lowestBit? = some bit) :
    ∃ other, (v ||| w).lowestBit? = some other := by
  rw [← Option.ne_none_iff_exists', ne_eq, lowestBit?_eq_none_iff]
  intro hz
  have hset : (v ||| w).getLsbD bit = true := by
    rw [BitVec.getLsbD_or, (lowestBit?_eq_some_iff.mp h).1, Bool.true_or]
  simp [hz] at hset

namespace Piece

/-- The characters are two decimal numbers around a minus sign. -/
def NamesRange (cs : List Char) (first last : Nat) : Prop :=
  ∃ start stop, cs = start ++ '-' :: stop ∧ IsDecimal start ∧ IsDecimal stop ∧
    Nat.ofDigitChars 10 start 0 = first ∧ Nat.ofDigitChars 10 stop 0 = last

/-- Two tokens name the parts of what one token names, the upper part first. -/
inductive Splits : List Char → List Char → List Char → Prop
  | bits {token upper lower : List Char} {first middle last : Nat} :
      NamesRange token first last → first ≤ middle → middle < last →
      NamesRange upper (middle + 1) last → NamesRange lower first middle →
      Splits token upper lower
  | const {upper lower : List Char} : (∀ c ∈ upper ++ lower, c = '#' ∨ c = '+') →
      upper ≠ [] → lower ≠ [] → Splits (upper ++ lower) upper lower

variable {cs token upper lower : List Char} {first last : Nat} {p : Piece}

theorem namesRange_token (first last : Nat) : NamesRange (bits first last).token first last :=
  ⟨_, _, rfl, isDecimal_toDigits first, isDecimal_toDigits last,
    Nat.ofDigitChars_ten_toDigits, Nat.ofDigitChars_ten_toDigits⟩

theorem NamesRange.tokenRange?_eq (h : NamesRange cs first last) :
    tokenRange? cs = some ⟨first, last⟩ := by
  obtain ⟨start, stop, rfl, hs, ht, rfl, rfl⟩ := h
  rw [tokenRange?, splitOn_range hs ht]

theorem tokenRange?_fixed (hall : ∀ c ∈ cs, c = '#' ∨ c = '+') : tokenRange? cs = none := by
  rw [tokenRange?, splitOn_fixed hall]

theorem NamesRange.tokenBits_eq (h : NamesRange cs first last) (w : Word) :
    tokenBits w cs = w.field first (last + 1 - first) := by
  obtain ⟨start, stop, rfl, hs, ht, rfl, rfl⟩ := h
  rw [tokenBits_range hs ht]

theorem NamesRange.comma_not_mem (h : NamesRange cs first last) : ',' ∉ cs := by
  obtain ⟨start, stop, rfl, hs, ht, -⟩ := h
  rw [List.mem_append, List.mem_cons]
  rintro (hm | hm | hm)
  · exact absurd (hs.2 _ hm) (by decide)
  · exact absurd hm (by decide)
  · exact absurd (ht.2 _ hm) (by decide)

theorem NamesRange.ne_nil (h : NamesRange cs first last) : cs ≠ [] := by
  obtain ⟨start, stop, rfl, -⟩ := h
  exact List.append_ne_nil_of_right_ne_nil _ (List.cons_ne_nil _ _)

theorem NamesRange.exists_spells_iff (h : NamesRange cs first last) :
    (∃ p, Spells cs p) ↔ first ≤ last ∧ last < 64 := by
  constructor
  · rintro ⟨p, hp⟩
    have hr := hp.tokenRange?_eq.symm.trans h.tokenRange?_eq
    cases p with
    | bits first last =>
      cases hr
      exact hp.wellFormed
    | const => cases hr
  · obtain ⟨start, stop, rfl, hs, ht, hf, hl⟩ := h
    exact fun ⟨hle, hlt⟩ => ⟨_, .bits hs ht hf hl hle hlt⟩

theorem length_le (h : p.WellFormed) : p.length ≤ 64 := by
  cases p with
  | bits first last =>
    have hlt : last < 64 := h.2
    rw [length]
    omega
  | const length number => exact h.2.1

theorem exists_spells_fixed_iff (hall : ∀ c ∈ cs, c = '#' ∨ c = '+') (hne : cs ≠ []) :
    (∃ p, Spells cs p) ↔ cs.length ≤ 64 := by
  constructor
  · rintro ⟨p, hp⟩
    rw [← length_fixedBits, ← tokenBits_fixed hall 0, hp.length_tokenBits]
    exact length_le hp.wellFormed
  · exact fun hl => ⟨_, .const hne hall hl⟩

theorem Splits.tokenBits_eq (h : Splits token upper lower) (w : Word) :
    tokenBits w token = tokenBits w upper ++ tokenBits w lower := by
  cases h with
  | @bits _ _ _ first middle last ht hle hlt hu hl =>
    have low : first + (middle + 1 - first) = middle + 1 := by omega
    have high : last + 1 - first = (middle + 1 - first) + (last + 1 - (middle + 1)) := by omega
    rw [ht.tokenBits_eq, hu.tokenBits_eq, hl.tokenBits_eq, high, Word.field_add, low]
  | const hall =>
    have parts := List.forall_mem_append.mp hall
    rw [tokenBits_fixed hall, tokenBits_fixed parts.1, tokenBits_fixed parts.2, fixedBits,
      List.map_append]
    rfl

/-- The parts are accepted when the whole is, unless its bits are too many for one token. -/
theorem Splits.exists_spells_iff (h : Splits token upper lower)
    (hle : (tokenBits 0 token).length ≤ 64) :
    (∃ p, Spells token p) ↔ (∃ p, Spells upper p) ∧ ∃ p, Spells lower p := by
  cases h with
  | bits ht hle hlt hu hl =>
    rw [ht.exists_spells_iff, hu.exists_spells_iff, hl.exists_spells_iff]
    omega
  | const hall hu hl =>
    have parts := List.forall_mem_append.mp hall
    rw [tokenBits_fixed hall, length_fixedBits] at hle
    rw [exists_spells_fixed_iff hall (by simp [hu]), exists_spells_fixed_iff parts.1 hu,
      exists_spells_fixed_iff parts.2 hl]
    rw [List.length_append] at hle ⊢
    omega

theorem Splits.ne_nil (h : Splits token upper lower) : token ≠ [] ∧ upper ≠ [] := by
  cases h with
  | bits ht _ _ hu => exact ⟨ht.ne_nil, hu.ne_nil⟩
  | const _ hu => exact ⟨List.append_ne_nil_of_left_ne_nil hu _, hu⟩

theorem Splits.comma_not_mem (h : Splits token upper lower) : ',' ∉ upper ∧ ',' ∉ lower := by
  cases h with
  | bits _ _ _ hu hl => exact ⟨hu.comma_not_mem, hl.comma_not_mem⟩
  | const hall =>
    rw [← not_or, ← List.mem_append]
    intro hm
    rcases hall _ hm with h | h <;> exact absurd h (by decide)

end Piece

namespace Layout

open Piece (Spells Splits tokenBits)

variable {source : String} {before after ts : List String} {token upper lower : String}

theorem not_mem_of_mem_splitOn {sep : Char} {cs text : List Char} (h : cs ∈ text.splitOn sep) :
    sep ∉ cs := by
  induction text generalizing cs with
  | nil =>
    rw [List.splitOn_nil, List.mem_singleton] at h
    rw [h]
    exact List.not_mem_nil
  | cons c text ih =>
    rw [List.splitOn_cons_eq_if_modifyHead] at h
    split at h
    · rcases List.mem_cons.mp h with rfl | h
      · simp
      · exact ih h
    · rename_i hc
      obtain ⟨front, rest, hr⟩ := List.exists_cons_of_ne_nil (List.splitOn_ne_nil sep text)
      rw [hr, List.modifyHead_cons] at h
      rw [hr] at ih
      rcases List.mem_cons.mp h with rfl | h
      · rw [List.mem_cons, not_or]
        exact ⟨fun he => hc (beq_iff_eq.mpr he.symm), ih List.mem_cons_self⟩
      · exact ih (List.mem_cons_of_mem _ h)

theorem comma_not_mem_of_mem_tokens (h : token ∈ tokens source) : ',' ∉ token.toList := by
  obtain ⟨cs, hcs, rfl⟩ := List.mem_map.mp h
  rw [String.toList_ofList]
  exact not_mem_of_mem_splitOn hcs

theorem tokens_intercalate (h : ∀ t ∈ ts, ',' ∉ t.toList) (hne : ts ≠ []) :
    tokens (",".intercalate ts) = ts := by
  have hall : ∀ cs ∈ ts.map String.toList, ',' ∉ cs := by simpa using h
  have comma : ",".toList = [','] := rfl
  rw [tokens, String.toList_intercalate, comma,
    List.splitOn_intercalate ',' hall (by simpa using hne), List.map_map]
  simp [Function.comp_def]

theorem tokens_split (hs : tokens source = before ++ token :: after)
    (h : Splits token.toList upper.toList lower.toList) :
    tokens (",".intercalate (before ++ upper :: lower :: after)) =
      before ++ upper :: lower :: after := by
  have hall : ∀ t ∈ before ++ token :: after, ',' ∉ t.toList :=
    hs ▸ fun _ => comma_not_mem_of_mem_tokens
  rw [List.forall_mem_append, List.forall_mem_cons] at hall
  refine tokens_intercalate ?_ (by simp)
  rw [List.forall_mem_append, List.forall_mem_cons, List.forall_mem_cons]
  exact ⟨hall.1, h.comma_not_mem.1, h.comma_not_mem.2, hall.2.2⟩

theorem exists_ofSource_iff (h : source ≠ "") : (∃ l, ofSource source = .ok l) ↔
    (∀ t ∈ tokens source, ∃ p, Spells t.toList p) ∧ (sourceBits 0 source).length ≤ 64 := by
  simp only [ofSource_eq_ok_iff h, ← Piece.ofToken_eq_ok_iff, ← spelled_iff_forall_exists]
  constructor
  · rintro ⟨_, pieces, hs, rfl, hw⟩
    exact ⟨⟨pieces, hs⟩, (hs.length_bits 0).trans_le hw⟩
  · rintro ⟨⟨pieces, hs⟩, hw⟩
    exact ⟨_, pieces, hs, rfl, (hs.length_bits 0).symm.trans_le hw⟩

theorem sourceBits_split (hs : tokens source = before ++ token :: after)
    (h : Splits token.toList upper.toList lower.toList) (w : Word) :
    sourceBits w (",".intercalate (before ++ upper :: lower :: after)) = sourceBits w source := by
  simp [sourceBits, tokens_split hs h, hs, h.tokenBits_eq]

theorem ne_empty_of_mem_tokens (h : token ∈ tokens source) (hne : token.toList ≠ []) :
    source ≠ "" := by
  rintro rfl
  rw [List.mem_singleton.mp h] at hne
  exact hne rfl

theorem ne_empty_split (hs : tokens source = before ++ token :: after)
    (h : Splits token.toList upper.toList lower.toList) :
    source ≠ "" ∧ ",".intercalate (before ++ upper :: lower :: after) ≠ "" :=
  ⟨ne_empty_of_mem_tokens (by simp [hs]) h.ne_nil.1,
    ne_empty_of_mem_tokens (by simp [tokens_split hs h]) h.ne_nil.2⟩

theorem exists_ofSource_split_iff (hs : tokens source = before ++ token :: after)
    (h : Splits token.toList upper.toList lower.toList) : (∃ l, ofSource source = .ok l) ↔
      ∃ l, ofSource (",".intercalate (before ++ upper :: lower :: after)) = .ok l := by
  obtain ⟨hne, hne'⟩ := ne_empty_split hs h
  rw [exists_ofSource_iff hne, exists_ofSource_iff hne', tokens_split hs h,
    sourceBits_split hs h, hs]
  refine and_congr_left fun hle => ?_
  have htoken : (tokenBits 0 token.toList).length ≤ 64 := by
    rw [sourceBits, hs, List.flatMap_append, List.flatMap_cons, List.length_append,
      List.length_append] at hle
    omega
  simp only [List.forall_mem_append, List.forall_mem_cons, h.exists_spells_iff htoken, and_assoc]

end Layout

namespace BitRange

def firstFault? (parameter : String) (bits : Nat) (seen : Word) :
    List BitRange → Option EncodingError
  | [] => none
  | r :: rest => (fault? parameter bits seen r).or
      (firstFault? parameter bits (seen ||| Word.span r.first r.last) rest)

/-- Both checks pass, or both report the same fault but for the bit that is read twice. -/
inductive SameFault : Option EncodingError → Option EncodingError → Prop
  | refl (fault? : Option EncodingError) : SameFault fault? fault?
  | repeated (parameter : String) (bit other : Nat) :
      SameFault (some (.bitRepeated parameter bit)) (some (.bitRepeated parameter other))

variable {parameter : String} {bits first middle last : Nat} {seen : Word}
  {before after : List BitRange} {a b : Option EncodingError}

theorem SameFault.or (h : SameFault a b) (fault? : Option EncodingError) :
    SameFault (fault?.or a) (fault?.or b) := by
  cases fault? with
  | none => exact h
  | some e => exact .refl (some e)

theorem fault?_of_lt (h : last < bits) : fault? parameter bits seen ⟨first, last⟩ =
    (seen &&& Word.span first last).lowestBit?.map (.bitRepeated parameter) :=
  if_neg (Nat.not_le.mpr h)

theorem firstFault?_parts (hb : bits ≤ 64) (hle : first ≤ middle) (hlt : middle < last) :
    SameFault (firstFault? parameter bits seen (⟨first, last⟩ :: after))
      (firstFault? parameter bits seen (⟨middle + 1, last⟩ :: ⟨first, middle⟩ :: after)) := by
  simp only [firstFault?]
  by_cases hout : bits ≤ last
  · have outside (r : BitRange) (hr : r.last = last) :
        fault? parameter bits seen r = some (.bitOutside parameter last bits) := by
      rw [fault?, if_pos (hr ▸ hout), hr]
    rw [outside _ rfl, outside _ rfl]
    exact .refl _
  · have hlast : last < bits := Nat.lt_of_not_le hout
    have whole : Word.span (middle + 1) last ||| Word.span first middle = Word.span first last :=
      Word.span_or_span hle hlt (by omega)
    have lower : (seen ||| Word.span (middle + 1) last) &&& Word.span first middle =
        seen &&& Word.span first middle := by
      rw [BitVec.and_or_distrib_right, Word.span_and_span hlt (by omega)]
      exact BitVec.or_zero
    rw [fault?_of_lt hlast, fault?_of_lt hlast, fault?_of_lt (Nat.lt_trans hlt hlast), lower,
      BitVec.or_assoc, whole, ← whole, BitVec.and_or_distrib_left]
    cases hu : (seen &&& Word.span (middle + 1) last).lowestBit? with
    | none =>
      -- the upper part repeats nothing, so the lower part repeats what the whole does
      have hz : (0 : Word) ||| seen &&& Word.span first middle = seen &&& Word.span first middle :=
        BitVec.zero_or
      rw [Word.lowestBit?_eq_none_iff.mp hu, hz]
      exact .refl _
    | some bit =>
      obtain ⟨other, ho⟩ := Word.exists_lowestBit?_or hu
      rw [ho]
      exact .repeated parameter other bit

theorem firstFault?_split (hb : bits ≤ 64) (hle : first ≤ middle) (hlt : middle < last) :
    SameFault (firstFault? parameter bits seen (before ++ ⟨first, last⟩ :: after))
      (firstFault? parameter bits seen
        (before ++ ⟨middle + 1, last⟩ :: ⟨first, middle⟩ :: after)) := by
  induction before generalizing seen with
  | nil => exact firstFault?_parts hb hle hlt
  | cons r before ih => exact ih.or _

end BitRange

theorem Layout.strictFaultAfter?_eq_firstFault? {parameter : String} {bits : Nat} {seen : Word}
    (l : Layout) : l.strictFaultAfter? parameter bits seen =
      BitRange.firstFault? parameter bits seen l.ranges := by
  induction l generalizing seen with
  | nil => rfl
  | cons s l ih =>
    obtain ⟨n, p⟩ := s
    cases p with
    | const length number => exact ih
    | bits first last =>
      rw [strictFaultAfter?_bits, ih]
      rfl

namespace Parameter

open Layout (tokens)
open Piece (Splits)

variable {source : String} {before after : List String} {token upper lower : String}
  {p q : Parameter} {a : Architecture}

theorem Valid.width_eq_of_sourceBits (hp : p.Valid) (hq : q.Valid)
    (h : Layout.sourceBits 0 q.source = Layout.sourceBits 0 p.source) : q.width = p.width := by
  rw [← hq.length_wires, ← hp.length_wires, ← List.length_map (Wire.carry 0),
    ← List.length_map (Wire.carry 0), map_carry_wires, map_carry_wires, h]

theorem Valid.value_eq_of_sourceBits {w : Word} (hp : p.Valid) (hq : q.Valid)
    (h : Layout.sourceBits w q.source = Layout.sourceBits w p.source) : q.value w = p.value w := by
  rw [← BitVec.toNat_inj, hq.toNat_value, hp.toNat_value, map_carry_wires, map_carry_wires, h]

theorem Valid.strictFault?_eq_firstFault? (h : p.Valid) :
    p.strictFault? a = BitRange.firstFault? p.name a.bits 0 p.ranges := by
  rw [strictFault?, Layout.strictFaultAfter?_eq_firstFault?, h.ranges_layout]

theorem Valid.sameFault_split (hp : p.Valid) (hq : q.Valid) (hname : q.name = p.name)
    (hs : tokens p.source = before ++ token :: after)
    (hsplit : tokens q.source = before ++ upper :: lower :: after)
    (h : Splits token.toList upper.toList lower.toList) :
    BitRange.SameFault (p.strictFault? a) (q.strictFault? a) := by
  rw [hp.strictFault?_eq_firstFault?, hq.strictFault?_eq_firstFault?, hname, ranges, ranges, hs,
    hsplit]
  simp only [List.filterMap_append, List.filterMap_cons]
  generalize token.toList = t, upper.toList = u, lower.toList = l at h
  cases h with
  | bits ht hle hlt hu hl =>
    rw [ht.tokenRange?_eq, hu.tokenRange?_eq, hl.tokenRange?_eq]
    exact BitRange.firstFault?_split a.bits_le hle hlt
  | const hall =>
    have parts := List.forall_mem_append.mp hall
    rw [Piece.tokenRange?_fixed hall, Piece.tokenRange?_fixed parts.1,
      Piece.tokenRange?_fixed parts.2]
    exact .refl _

/-- Two tokens that name the parts of one may stand in its place. The source is accepted as
before, the value has the same width and is the same for every word, and whatever the
architecture, the strict check passes or fails as before, at most over another of the bits
that are read twice. -/
theorem make_split (hs : tokens source = before ++ token :: after)
    (h : Splits token.toList upper.toList lower.toList) (name : String)
    (description : Option String) :
    let split := ",".intercalate (before ++ upper :: lower :: after)
    ((∃ p, make name source description = .ok p) ↔
      ∃ q, make name split description = .ok q) ∧
    ∀ p q, make name source description = .ok p → make name split description = .ok q →
      q.width = p.width ∧ (∀ w, q.value w = p.value w) ∧
        ∀ a, BitRange.SameFault (p.strictFault? a) (q.strictFault? a) := by
  intro split
  have hsplit : tokens split = before ++ upper :: lower :: after := Layout.tokens_split hs h
  refine ⟨?_, fun p q hp hq => ?_⟩
  · obtain ⟨hne, hne'⟩ := Layout.ne_empty_split hs h
    rw [exists_make_iff, exists_make_iff, Layout.exists_ofSource_split_iff hs h, and_iff_right hne,
      and_iff_right hne']
  · have hvp := valid_of_make hp
    have hvq := valid_of_make hq
    obtain ⟨-, -, -, hname, rfl, -⟩ := make_eq_ok_iff.mp hp
    obtain ⟨-, -, -, hname', hsource, -⟩ := make_eq_ok_iff.mp hq
    have hbits (w : Word) : Layout.sourceBits w q.source = Layout.sourceBits w p.source := by
      rw [hsource]
      exact Layout.sourceBits_split hs h w
    exact ⟨hvp.width_eq_of_sourceBits hvq (hbits 0),
      fun w => hvp.value_eq_of_sourceBits hvq (hbits w),
      fun a => hvp.sameFault_split hvq (hname'.trans hname.symm) hs (hsource ▸ hsplit) h⟩

/-- A range inside a source, parted above a bit that another range of it reads too, and fixed
bits parted at the end of one. -/
theorem make_split_sample :
    let p : Parameter := ⟨"imm", "2-5,4-11,##", none,
      [⟨10, .bits 2 5⟩, ⟨2, .bits 4 11⟩, ⟨0, .const 2 0⟩]⟩
    let q : Parameter := ⟨"imm", "2-5,5-11,4-4,##", none,
      [⟨10, .bits 2 5⟩, ⟨3, .bits 5 11⟩, ⟨2, .bits 4 4⟩, ⟨0, .const 2 0⟩]⟩
    make "imm" "2-5,4-11,##" none = .ok p ∧ make "imm" "2-5,5-11,4-4,##" none = .ok q ∧
      q.width = p.width ∧ (∀ w, q.value w = p.value w) ∧
      p.strictFault? .bits16 = some (.bitRepeated "imm" 4) ∧
      q.strictFault? .bits16 = some (.bitRepeated "imm" 5) ∧
      BitRange.SameFault (p.strictFault? .bits16) (q.strictFault? .bits16) ∧
      ∃ r, make "one" "+#,+" none = .ok r := by
  intro p q
  have hs : tokens "2-5,4-11,##" = ["2-5"] ++ "4-11" :: ["##"] := by decide +kernel
  have parts : Splits "4-11".toList "5-11".toList "4-4".toList := by
    have whole : "4-11".toList = Piece.token (.bits 4 11) := by decide +kernel
    have above : "5-11".toList = Piece.token (.bits 5 11) := by decide +kernel
    have below : "4-4".toList = Piece.token (.bits 4 4) := by decide +kernel
    rw [whole, above, below]
    exact .bits (Piece.namesRange_token 4 11) (by decide) (by decide)
      (Piece.namesRange_token 5 11) (Piece.namesRange_token 4 4)
  have hfixed : tokens "+#+" = [] ++ "+#+" :: [] := by decide +kernel
  have ends : Splits "+#+".toList "+#".toList "+".toList := by
    change Splits (['+', '#'] ++ ['+']) ['+', '#'] ['+']
    exact .const (by simp) (by simp) (by simp)
  have hp : make "imm" "2-5,4-11,##" none = .ok p := by decide +kernel
  have hq : make "imm" "2-5,5-11,4-4,##" none = .ok q := by decide +kernel
  obtain ⟨width, value, fault⟩ := (make_split hs parts "imm" none).2 p q hp hq
  refine ⟨hp, hq, width, value, by decide +kernel, by decide +kernel, fault .bits16, ?_⟩
  exact (make_split hfixed ends "one" none).1.mp
    ⟨⟨"one", "+#+", none, [⟨0, .const 3 5⟩]⟩, by decide +kernel⟩

end Parameter

end BitLayout
