import BitLayout.Proofs.Strict
import BitLayout.Proofs.Wiring

/-! # Encodable values

A parameter admits the values that have its fixed bits in their places. When no bit of
the word is read twice, each of them is the value of some word, which needs no other bits
than those that are read. When a bit is read twice, some value that is admitted is the
value of no word.
-/

namespace BitLayout

namespace Wire

/-- The wire can carry the bit for some word. -/
def Allows : Wire → Bool → Prop
  | fixed b, c => c = b
  | read _, _ => True

instance : DecidableRel Allows
  | fixed b, c => inferInstanceAs (Decidable (c = b))
  | read _, _ => .isTrue trivial

variable {ws : List Wire} {bs : List Bool}

theorem getLsbD_or_twoPow (w : Word) (b : Bool) {n i : Nat} (h : n < 64) :
    (w ||| if b then BitVec.twoPow 64 n else 0).getLsbD i =
      (w.getLsbD i || b && decide (n = i)) := by
  cases b <;> simp [h]

theorem allows_carry (a : Wire) (w : Word) : a.Allows (a.carry w) := by
  cases a <;> simp [Allows, carry]

theorem forall₂_map_carry (ws : List Wire) (w : Word) :
    List.Forall₂ Allows ws (ws.map (carry w)) := by
  rw [List.forall₂_map_right_iff, List.forall₂_same]
  exact fun a _ => a.allows_carry w

/-- Wires that read no bit twice carry every row of bits that they allow. -/
theorem exists_word_of_nodup (hn : (bits ws).Nodup) (hlt : ∀ bit ∈ bits ws, bit < 64)
    (h : List.Forall₂ Allows ws bs) :
    ∃ w : Word, (∀ bit, w.getLsbD bit = true → bit ∈ bits ws) ∧ ws.map (carry w) = bs := by
  -- a bit outside those read so far is clear, so the next wire is free to set it
  induction h with
  | nil => exact ⟨0, by simp, rfl⟩
  | @cons a b ws bs ha _ ih =>
    cases a with
    | fixed c =>
      obtain ⟨w, hw, rfl⟩ := ih hn hlt
      cases ha
      exact ⟨w, hw, rfl⟩
    | read n =>
      rw [bits_read, List.forall_mem_cons] at hlt
      obtain ⟨hfresh, hn⟩ := List.nodup_cons.mp hn
      obtain ⟨w, hw, rfl⟩ := ih hn hlt.2
      have hclear : w.getLsbD n = false := Bool.eq_false_iff.mpr fun h => hfresh (hw n h)
      have hset (i : Nat) := getLsbD_or_twoPow w b hlt.1 (i := i)
      refine ⟨w ||| if b then BitVec.twoPow 64 n else 0, ?_, ?_⟩
      · intro bit hbit
        rw [hset, Bool.or_eq_true, Bool.and_eq_true, decide_eq_true_iff] at hbit
        rcases hbit with hbit | ⟨-, rfl⟩
        · exact List.mem_cons_of_mem _ (hw bit hbit)
        · exact List.mem_cons_self
      · have hkept : ∀ bit ∈ bits ws, (w ||| if b then BitVec.twoPow 64 n else 0).getLsbD bit =
            w.getLsbD bit := by
          intro bit hbit
          have hne : n ≠ bit := by
            rintro rfl
            exact hfresh hbit
          rw [hset, decide_eq_false hne, Bool.and_false, Bool.or_false]
        rw [List.map_cons, map_carry_eq_iff.mpr hkept, carry, hset, hclear]
        simp

theorem nodup_of_exists_word
    (h : ∀ bs, List.Forall₂ Allows ws bs → ∃ w : Word, ws.map (carry w) = bs) :
    (bits ws).Nodup := by
  induction ws with
  | nil => simp [bits]
  | cons a ws ih =>
    have hrest : (bits ws).Nodup := by
      apply ih
      intro bs hbs
      obtain ⟨w, hw⟩ := h (a.carry 0 :: bs) (.cons (a.allows_carry 0) hbs)
      exact ⟨w, (List.cons.inj hw).2⟩
    cases a with
    | fixed c => exact hrest
    | read n =>
      refine List.nodup_cons.mpr ⟨fun hn => ?_, hrest⟩
      -- a wire further down holds the bit at 0 while this one asks for 1
      obtain ⟨w, hw⟩ := h (true :: ws.map (carry 0)) (.cons trivial (forall₂_map_carry ws 0))
      obtain ⟨hset, hclear⟩ := List.cons.inj hw
      have hz := map_carry_eq_iff.mp hclear n hn
      simp [carry, hz] at hset

end Wire

namespace Parameter

/-- The value has the fixed bits of the source in their places. -/
def Admits (p : Parameter) (v : Word) : Prop :=
  List.Forall₂ Wire.Allows p.wires (v.field 0 p.width)

variable {p : Parameter} {v : Word}

theorem Valid.exists_word_of_apart (h : p.Valid) (hd : BitRange.Apart p.ranges)
    (hv : v.toNat < 2 ^ p.width) (ha : p.Admits v) :
    ∃ w : Word, (∀ bit, w.getLsbD bit = true → ∃ r ∈ p.ranges, r.Reads bit) ∧ p.value w = v := by
  have hlt : ∀ bit ∈ Wire.bits p.wires, bit < 64 := by
    intro bit hbit
    obtain ⟨r, hr, hrb⟩ := mem_bits_wires.mp hbit
    exact Nat.lt_of_le_of_lt hrb.2 (h.range_wellFormed r hr).2
  obtain ⟨w, hw, hcarry⟩ := Wire.exists_word_of_nodup (nodup_bits_wires.mpr hd) hlt ha
  exact ⟨w, fun bit hbit => mem_bits_wires.mp (hw bit hbit), (h.value_eq_iff hv).mpr hcarry⟩

theorem Valid.apart_of_exists_word (h : p.Valid)
    (he : ∀ v : Word, v.toNat < 2 ^ p.width → p.Admits v → ∃ w, p.value w = v) :
    BitRange.Apart p.ranges := by
  refine nodup_bits_wires.mp (Wire.nodup_of_exists_word fun bs hbs => ?_)
  have hl : bs.length = p.width := hbs.length_eq.symm.trans h.length_wires
  have hle : bs.length ≤ 64 := hl ▸ h.laidOut.width_le
  have hf := Word.field_ofNat_bitNumber hle
  rw [hl] at hf
  have hv : (BitVec.ofNat 64 (bitNumber bs)).toNat < 2 ^ p.width := by
    rw [BitVec.toNat_ofNat, ← hl]
    exact Nat.lt_of_le_of_lt (Nat.mod_le _ _) (bitNumber_lt bs)
  obtain ⟨w, hw⟩ := he _ hv (by rwa [Admits, hf])
  exact ⟨w, ((h.value_eq_iff hv).mp hw).trans hf⟩

end Parameter

namespace Instruction

/-- Each value that the parameter admits is that of a word inside the architecture. -/
def Encodes (i : Instruction) (p : Parameter) : Prop :=
  ∀ v : Word, v.toNat < 2 ^ p.width → p.Admits v → ∃ w, i.fits w = true ∧ p.value w = v

variable {i : Instruction} {p : Parameter}

theorem Valid.encodes_of_sound (h : i.Valid) (hp : p ∈ i.parameters)
    (hs : BitRange.Sound i.architecture.bits p.ranges) : i.Encodes p := by
  intro v hv ha
  obtain ⟨w, hw, hvalue⟩ := (h.parameters p hp).exists_word_of_apart hs.disjoint hv ha
  refine ⟨w, Word.fits_iff.mpr fun bit hbit => ?_, hvalue⟩
  obtain ⟨r, hr, hrb⟩ := hw bit hbit
  exact Nat.lt_of_le_of_lt hrb.2 (hs.last_lt r hr)

/-- Where all ranges of a parameter end inside the architecture, no bit is read by two of
them exactly when each value with the parameter's fixed bits is that of a word inside the
architecture. So it is under the strict check, and an overlap leaves some such value
without any word. -/
theorem apart_iff_encodes (h : i.Reachable) (hp : p ∈ i.parameters) :
    ((∀ r ∈ p.ranges, r.last < i.architecture.bits) →
      (BitRange.Apart p.ranges ↔ i.Encodes p)) ∧
    (i.checkStrict = .ok () → i.Encodes p) ∧
    (¬ BitRange.Apart p.ranges →
      ∃ v : Word, v.toNat < 2 ^ p.width ∧ p.Admits v ∧ ∀ w, p.value w ≠ v) := by
  have hv := h.valid.parameters p hp
  refine ⟨fun hlast => ⟨fun hd => ?_, fun he => ?_⟩, fun hc => ?_, fun hn => ?_⟩
  · exact h.valid.encodes_of_sound hp ⟨hlast, hd⟩
  · refine hv.apart_of_exists_word fun v hlt ha => ?_
    obtain ⟨w, -, hw⟩ := he v hlt ha
    exact ⟨w, hw⟩
  · exact h.valid.encodes_of_sound hp (h.valid.sound_of_checkStrict hc p hp)
  · by_contra hnone
    refine hn (hv.apart_of_exists_word fun v hlt ha => ?_)
    by_contra hw
    exact hnone ⟨v, hlt, ha, fun w hwv => hw ⟨w, hwv⟩⟩

/-- A parameter with a bit that both of its ranges read. -/
def doubled : Parameter := ⟨"rd", "0-1,1-2", none, [⟨2, .bits 0 1⟩, ⟨0, .bits 1 2⟩]⟩

theorem apart_iff_encodes_sample :
    let i : Instruction := ⟨"st", none, [parted, doubled], .bits8⟩
    i.Reachable ∧ parted ∈ i.parameters ∧ doubled ∈ i.parameters ∧
      (∃ w, i.fits w = true ∧ parted.value w = 0b10100011) ∧
      (¬ i.Encodes doubled) ∧
      ∃ v : Word, v.toNat < 2 ^ doubled.width ∧ doubled.Admits v ∧ ∀ w, doubled.value w ≠ v := by
  intro i
  have h : i.Reachable := reachable_iff_valid.mpr ⟨by decide, by decide, by decide +kernel⟩
  have hp : parted ∈ i.parameters := List.mem_cons_self
  have hd : doubled ∈ i.parameters := List.mem_cons_of_mem _ List.mem_cons_self
  have hparted : parted.ranges = [⟨0, 3⟩, ⟨6, 7⟩] := by decide +kernel
  have hdoubled : doubled.ranges = [⟨0, 1⟩, ⟨1, 2⟩] := by decide +kernel
  have apart : BitRange.Apart parted.ranges := by
    simp [hparted, BitRange.Apart, BitRange.Reads]
    omega
  have overlap : ¬ BitRange.Apart doubled.ranges := by
    intro hn
    rw [hdoubled, BitRange.Apart, List.pairwise_pair] at hn
    exact hn 1 (by decide)
  have admits : parted.Admits 0b10100011 := by
    unfold Parameter.Admits
    decide +kernel
  have hin : ∀ r ∈ parted.ranges, r.last < i.architecture.bits := by
    rw [hparted]
    decide
  have din : ∀ r ∈ doubled.ranges, r.last < i.architecture.bits := by
    rw [hdoubled]
    decide
  refine ⟨h, hp, hd, ?_, ?_, (apart_iff_encodes h hd).2.2 overlap⟩
  · exact ((apart_iff_encodes h hp).1 hin).mp apart _ (by decide) admits
  · exact fun he => overlap (((apart_iff_encodes h hd).1 din).mpr he)

end Instruction

end BitLayout
