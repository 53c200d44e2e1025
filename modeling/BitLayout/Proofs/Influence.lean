import BitLayout.CommandLine.Command
import BitLayout.Proofs.Strict
import BitLayout.Proofs.Wiring

/-! # Influence

The value of a parameter depends on the bits of the word that its masks select, on each of
them and on no others. So an instruction ignores what lies outside its architecture
exactly when none of its ranges leaves the architecture, which the strict check ensures.
-/

namespace BitLayout

namespace Word

variable {w v m : Word} {count bit : Nat}

/-- The word whose number is that of `w` modulo `2 ^ count`. -/
def low (w : Word) (count : Nat) : Word := BitVec.ofNat wordBits (w.toNat % 2 ^ count)

@[simp] theorem getLsbD_low :
    (w.low count).getLsbD bit = (w.getLsbD bit && decide (bit < count)) := by
  rw [low, BitVec.getLsbD_ofNat, Nat.testBit_mod_two_pow, BitVec.testBit_toNat]
  by_cases h : bit < wordBits
  · simp [h, Bool.and_comm]
  · simp [BitVec.getLsbD_of_ge w bit (Nat.le_of_not_lt h)]

theorem low_eq_low_iff :
    w.low count = v.low count ↔ ∀ bit < count, w.getLsbD bit = v.getLsbD bit := by
  rw [eq_iff_getLsbD]
  refine forall_congr' fun bit => ?_
  by_cases h : bit < count <;> simp [h]

theorem low_eq_self_iff : w.low count = w ↔ w.fits count = true := by
  rw [eq_iff_getLsbD, fits_iff]
  refine forall_congr' fun bit => ?_
  cases h : w.getLsbD bit <;> simp [h]

theorem flip_and_ne_iff :
    (w ^^^ BitVec.twoPow wordBits bit) &&& m ≠ w &&& m ↔ m.getLsbD bit = true := by
  rw [ne_eq, and_eq_and_iff, not_iff_comm, Bool.not_eq_true]
  constructor
  · intro h i hi
    have hne : bit ≠ i := by
      rintro rfl
      simp [h] at hi
    simp [hne]
  · intro h
    rw [Bool.eq_false_iff]
    intro hbit
    simpa [BitVec.lt_of_getLsbD hbit] using h bit hbit

end Word

/-- The bits of the word that some slice reads. -/
def Layout.mask (l : Layout) : Word := (l.filterMap Slice.mask?).foldr (· ||| ·) 0

theorem Layout.recorded_mask {l : Layout} (h : ∀ r ∈ l.ranges, r.last < 64) :
    BitRange.Recorded l.mask l.ranges := by
  induction l with
  | nil => exact BitRange.recorded_nil
  | cons s l ih =>
    obtain ⟨n, piece⟩ := s
    cases piece with
    | const => exact ih h
    | bits first last =>
      rw [ranges_bits, List.forall_mem_cons] at h
      intro bit
      change (Word.span first last ||| mask l).getLsbD bit = true ↔ _
      rw [BitVec.getLsbD_or, Bool.or_eq_true, ih h.2 bit, ranges_bits, List.exists_mem_cons_iff,
        BitRange.getLsbD_span_iff (r := ⟨first, last⟩) h.1]

namespace Parameter

variable {p : Parameter} {w v : Word}

theorem Valid.recorded_mask (h : p.Valid) : BitRange.Recorded p.layout.mask p.ranges := by
  rw [← h.ranges_layout]
  apply Layout.recorded_mask
  rw [h.ranges_layout]
  exact fun r hr => (h.range_wellFormed r hr).2

theorem Valid.value_eq_value_iff_and (h : p.Valid) :
    p.value w = p.value v ↔ w &&& p.layout.mask = v &&& p.layout.mask := by
  rw [h.value_eq_value_iff, Word.and_eq_and_iff]
  simp only [h.recorded_mask _]

/-- A parameter has the same value in two words exactly when they agree under the masks of
its slices, and the value changes with a bit of the word exactly when a mask has it. -/
theorem value_eq_iff_masked {name source : String} {description : Option String}
    (h : make name source description = .ok p) :
    (∀ w v : Word, p.value w = p.value v ↔ w &&& p.layout.mask = v &&& p.layout.mask) ∧
    ∀ (w : Word) (bit : Nat), p.layout.mask.getLsbD bit = true ↔
      p.value (w ^^^ BitVec.twoPow wordBits bit) ≠ p.value w := by
  have hv := valid_of_make h
  refine ⟨fun w v => hv.value_eq_value_iff_and, fun w bit => ?_⟩
  rw [ne_eq, hv.value_eq_value_iff_and]
  exact Word.flip_and_ne_iff.symm

theorem value_eq_iff_masked_sample :
    make "imm" "2-3,#+,0-1" none = .ok sample ∧ sample.layout.mask = 0xf ∧
      sample.value 0x3e = sample.value 0xe ∧ sample.value 0xc ≠ sample.value 0xe := by
  have h : make "imm" "2-3,#+,0-1" none = .ok sample := by decide +kernel
  have hmask : sample.layout.mask = 0xf := by decide +kernel
  obtain ⟨hvalue, hflip⟩ := value_eq_iff_masked h
  refine ⟨h, hmask, (hvalue 0x3e 0xe).mpr ?_, (hflip 0xe 1).mp ?_⟩
  · rw [hmask]
    decide
  · rw [hmask]
    decide

end Parameter

namespace Instruction

variable {i : Instruction} {w v : Word}

theorem Valid.decode_eq_iff (h : i.Valid) :
    i.decode w = i.decode v ↔ ∀ p ∈ i.parameters, p.value w = p.value v := by
  have hentries (u : Word) :
      (i.decode u).entries = i.parameters.map fun p => (p.name, p.value u) := by
    apply OrderedMap.entries_ofList
    rw [List.map_map]
    exact h.nodup
  constructor
  · intro hd
    have hmap := congrArg OrderedMap.entries hd
    rw [hentries, hentries, List.map_inj_left] at hmap
    exact fun p hp => (Prod.mk.inj (hmap p hp)).2
  · intro hp
    rw [decode, decode, List.map_inj_left.mpr fun p hm => by rw [hp p hm]]

theorem Valid.decode_eq_of_low (h : i.Valid) {count : Nat}
    (hlast : ∀ p ∈ i.parameters, ∀ r ∈ p.ranges, r.last < count)
    (hlow : w.low count = v.low count) : i.decode w = i.decode v := by
  rw [h.decode_eq_iff]
  intro p hp
  rw [(h.parameters p hp).value_eq_value_iff]
  rintro bit ⟨r, hr, hrb⟩
  exact Word.low_eq_low_iff.mp hlow bit (Nat.lt_of_le_of_lt hrb.2 (hlast p hp r hr))

theorem Valid.last_lt_of_decode (h : i.Valid) {count : Nat}
    (hd : i.decode (BitVec.allOnes wordBits) =
      i.decode (Word.low (BitVec.allOnes wordBits) count)) :
    ∀ p ∈ i.parameters, ∀ r ∈ p.ranges, r.last < count := by
  -- the highest bit of a range is one in a word of ones, and still one in what is left of it
  intro p hp r hr
  have hv := h.parameters p hp
  obtain ⟨hle, hlt⟩ := hv.range_wellFormed r hr
  have hbit := hv.value_eq_value_iff.mp (h.decode_eq_iff.mp hd p hp) r.last ⟨r, hr, hle, le_rfl⟩
  rw [Word.getLsbD_low, BitVec.getLsbD_allOnes, decide_eq_true hlt, Bool.true_and] at hbit
  exact of_decide_eq_true hbit.symm

/-- All ranges of an instruction end inside its architecture exactly when each word is decoded
as its number modulo the words of the architecture is. Under the strict check two words
that agree inside the architecture are decoded alike, and a word brings a warning exactly
when it differs from what is left of it there. -/
theorem decode_low_iff (h : i.Reachable) :
    ((∀ p ∈ i.parameters, ∀ r ∈ p.ranges, r.last < i.architecture.bits) ↔
      ∀ w, i.decode w = i.decode (w.low i.architecture.bits)) ∧
    (i.checkStrict = .ok () → ∀ w v : Word,
      w.low i.architecture.bits = v.low i.architecture.bits → i.decode w = i.decode v) ∧
    ∀ w, CommandLine.warnings [i] w = [] ↔ w.low i.architecture.bits = w := by
  have hv := h.valid
  refine ⟨⟨fun hlast w => ?_, fun hd => ?_⟩, fun hc w v hlow => ?_, fun w => ?_⟩
  · exact hv.decode_eq_of_low hlast (Word.low_eq_low_iff.mpr fun bit hbit => by simp [hbit])
  · exact hv.last_lt_of_decode (hd _)
  · exact hv.decode_eq_of_low (fun p hp => (hv.sound_of_checkStrict hc p hp).last_lt) hlow
  · rw [Word.low_eq_self_iff, CommandLine.warnings]
    simp [fits, Architecture.fits]

/-- The bits 8 and up of the words differ; a range that goes beyond bit 7 tells them apart. -/
theorem decode_low_iff_sample :
    let i : Instruction := ⟨"st", none, [parted], .bits8⟩
    let k : Instruction := ⟨"ld", none, [crossing], .bits8⟩
    i.Reachable ∧ k.Reachable ∧ i.checkStrict = .ok () ∧ i.decode 0x1b4 = i.decode 0xb4 ∧
      (CommandLine.warnings [i] 0x1b4 ≠ []) ∧
      ¬ ∀ w, k.decode w = k.decode (w.low k.architecture.bits) := by
  intro i k
  have hi : i.Reachable := reachable_iff_valid.mpr ⟨by decide, by decide, by decide +kernel⟩
  have hk : k.Reachable := reachable_iff_valid.mpr ⟨by decide, by decide, by decide +kernel⟩
  have hc : i.checkStrict = .ok () := by decide +kernel
  have hranges : crossing.ranges = [⟨2, 5⟩, ⟨0, 3⟩, ⟨6, 9⟩] := by decide +kernel
  obtain ⟨-, hlow, hwarn⟩ := decode_low_iff hi
  refine ⟨hi, hk, hc, hlow hc 0x1b4 0xb4 (by decide), ?_, fun hd => ?_⟩
  · rw [ne_eq, hwarn 0x1b4]
    decide
  · have hlast := (decode_low_iff hk).1.mpr hd crossing List.mem_cons_self ⟨6, 9⟩
    rw [hranges] at hlast
    exact absurd (hlast (by decide)) (by decide)

end Instruction

end BitLayout
