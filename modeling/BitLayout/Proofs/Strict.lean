import BitLayout.Instruction.Strict
import BitLayout.Proofs.BitRange
import BitLayout.Proofs.Instruction

/-! # The strict check

The strict check passes when the ranges of each parameter end inside the
architecture and no two of them share a bit. Otherwise it reports the first range
at fault in the first parameter at fault: where the range ends, or else the lowest
of its bits that an earlier range of the parameter reads.
-/

namespace BitLayout

namespace BitRange

/-- What is wrong with a range of a parameter that stands behind the earlier ones. -/
inductive Fault (parameter : String) (bits : Nat) (earlier : List BitRange) (r : BitRange) :
    EncodingError → Prop
  | outside : bits ≤ r.last → Fault parameter bits earlier r (.bitOutside parameter r.last bits)
  | repeated {bit : Nat} : r.last < bits → Repeats earlier r bit →
      (∀ b < bit, ¬ Repeats earlier r b) →
      Fault parameter bits earlier r (.bitRepeated parameter bit)

def FirstFault (parameter : String) (bits : Nat) (ranges : List BitRange) (e : EncodingError) :
    Prop :=
  ∃ earlier r later, ranges = earlier ++ r :: later ∧ Sound bits earlier ∧
    Fault parameter bits earlier r e

variable {parameter : String} {bits : Nat} {earlier : List BitRange} {r : BitRange}
  {e : EncodingError} {seen : Word}

def fault? (parameter : String) (bits : Nat) (seen : Word) (r : BitRange) : Option EncodingError :=
  if bits ≤ r.last then some (.bitOutside parameter r.last bits)
  else (seen &&& Word.span r.first r.last).lowestBit?.map (.bitRepeated parameter)

theorem fault?_eq_none_iff (hb : bits ≤ 64) (he : Sound bits earlier)
    (hs : Recorded seen earlier) :
    fault? parameter bits seen r = none ↔ Sound bits (earlier ++ [r]) := by
  rw [sound_concat, fault?]
  split
  · rename_i h
    simp [Nat.not_lt.mpr h]
  · rename_i h
    have hlt : r.last < bits := Nat.lt_of_not_le h
    rw [Option.map_eq_none_iff, hs.lowestBit?_eq_none_iff (Nat.lt_of_lt_of_le hlt hb)]
    exact ⟨fun hn => ⟨he, hlt, hn⟩, fun hn => hn.2.2⟩

theorem fault?_eq_some_iff (hb : bits ≤ 64) (hs : Recorded seen earlier) :
    fault? parameter bits seen r = some e ↔ Fault parameter bits earlier r e := by
  rw [fault?]
  split
  · rename_i h
    constructor
    · intro he
      cases he
      exact .outside h
    · intro he
      cases he with
      | outside => rfl
      | repeated hlt => exact absurd h (Nat.not_le.mpr hlt)
  · rename_i h
    have hlt : r.last < bits := Nat.lt_of_not_le h
    simp only [Option.map_eq_some_iff, hs.lowestBit?_eq_some_iff (Nat.lt_of_lt_of_le hlt hb)]
    constructor
    · rintro ⟨bit, ⟨hbit, hleast⟩, rfl⟩
      exact .repeated hlt hbit hleast
    · intro he
      cases he with
      | outside hle => exact absurd hle h
      | repeated _ hbit hleast => exact ⟨_, ⟨hbit, hleast⟩, rfl⟩

end BitRange

namespace Layout

open BitRange

variable {parameter : String} {bits : Nat} {earlier : List BitRange} {e : EncodingError}
  {seen : Word} {l : Layout}

theorem strictFaultAfter?_bits (n first last : Nat) :
    strictFaultAfter? parameter bits seen (⟨n, .bits first last⟩ :: l) =
      (fault? parameter bits seen ⟨first, last⟩).or
        (strictFaultAfter? parameter bits (seen ||| Word.span first last) l) := by
  rw [strictFaultAfter?, fault?]
  split
  · rfl
  · cases (seen &&& Word.span first last).lowestBit? <;> rfl

theorem strictFaultAfter?_eq_none_iff (hb : bits ≤ 64) (he : Sound bits earlier)
    (hs : Recorded seen earlier) :
    strictFaultAfter? parameter bits seen l = none ↔ Sound bits (earlier ++ l.ranges) := by
  -- the word records the earlier ranges, which are sound, in front of every slice
  induction l generalizing seen earlier with
  | nil => simpa [strictFaultAfter?, ranges] using he
  | cons s l ih =>
    obtain ⟨n, p⟩ := s
    cases p with
    | const length number => exact ih he hs
    | bits first last =>
      rw [strictFaultAfter?_bits, Option.or_eq_none_iff, fault?_eq_none_iff hb he hs, ranges_bits,
        List.append_cons earlier _ (ranges l)]
      constructor
      · rintro ⟨hfirst, hrest⟩
        exact (ih hfirst (hs.next hb hfirst)).mp hrest
      · intro h
        have hfirst := h.of_append
        exact ⟨hfirst, (ih hfirst (hs.next hb hfirst)).mpr h⟩

theorem strictFaultAfter?_eq_some_iff (hb : bits ≤ 64) (he : Sound bits earlier)
    (hs : Recorded seen earlier) :
    strictFaultAfter? parameter bits seen l = some e ↔ ∃ before r after,
      l.ranges = before ++ r :: after ∧ Sound bits (earlier ++ before) ∧
        Fault parameter bits (earlier ++ before) r e := by
  -- again over the slices; the ranges in front of the fault are those that the word has taken up
  induction l generalizing seen earlier with
  | nil => simp [strictFaultAfter?, ranges]
  | cons s l ih =>
    obtain ⟨n, p⟩ := s
    cases p with
    | const length number => exact ih he hs
    | bits first last =>
      rw [strictFaultAfter?_bits, Option.or_eq_some_iff, fault?_eq_none_iff hb he hs,
        fault?_eq_some_iff hb hs, ranges_bits]
      constructor
      · rintro (hf | ⟨hfirst, hrest⟩)
        · refine ⟨[], ⟨first, last⟩, ranges l, rfl, ?_⟩
          rw [List.append_nil]
          exact ⟨he, hf⟩
        · obtain ⟨before, r, after, hl, h⟩ := (ih hfirst (hs.next hb hfirst)).mp hrest
          refine ⟨⟨first, last⟩ :: before, r, after, by rw [hl, List.cons_append], ?_⟩
          rwa [List.append_cons]
      · rintro ⟨before, r, after, hl, h⟩
        cases before with
        | nil =>
          rw [List.append_nil] at h
          cases hl
          exact Or.inl h.2
        | cons t before =>
          rw [List.append_cons] at h
          rw [List.cons_append] at hl
          obtain ⟨rfl, hrest⟩ := List.cons.inj hl
          have hfirst := h.1.of_append
          refine Or.inr ⟨hfirst, (ih hfirst (hs.next hb hfirst)).mpr ?_⟩
          exact ⟨before, r, after, hrest, h⟩

end Layout

theorem Architecture.bits_le (a : Architecture) : a.bits ≤ 64 := by
  cases a <;> decide

namespace Parameter

variable {p : Parameter} {a : Architecture} {e : EncodingError}

theorem Valid.strictFault?_eq_none_iff (h : p.Valid) :
    p.strictFault? a = none ↔ BitRange.Sound a.bits p.ranges := by
  rw [strictFault?, Layout.strictFaultAfter?_eq_none_iff a.bits_le BitRange.sound_nil
    BitRange.recorded_nil, h.ranges_layout, List.nil_append]

theorem Valid.strictFault?_eq_some_iff (h : p.Valid) :
    p.strictFault? a = some e ↔ BitRange.FirstFault p.name a.bits p.ranges e := by
  rw [strictFault?, Layout.strictFaultAfter?_eq_some_iff a.bits_le BitRange.sound_nil
    BitRange.recorded_nil, h.ranges_layout]
  rfl

end Parameter

namespace Instruction

variable {i : Instruction} {e : EncodingError}

theorem checkStrict_eq_ok_iff : i.checkStrict = .ok () ↔ i.strictFault? = none := by
  rw [checkStrict]
  cases i.strictFault? <;> simp

theorem checkStrict_eq_error_iff : i.checkStrict = .error e ↔ i.strictFault? = some e := by
  rw [checkStrict]
  cases i.strictFault? <;> simp

theorem Valid.sound_of_checkStrict (h : i.Valid) (hc : i.checkStrict = .ok ()) :
    ∀ p ∈ i.parameters, BitRange.Sound i.architecture.bits p.ranges := by
  rw [checkStrict_eq_ok_iff, strictFault?, List.findSome?_eq_none_iff] at hc
  intro p hp
  exact (h.parameters p hp).strictFault?_eq_none_iff.mp (hc p hp)

/-- The strict check passes exactly when in each parameter all ranges end inside the
architecture and no two share a bit. It fails with the first fault of the first
parameter whose ranges are not so. -/
theorem checkStrict_outcome (h : i.Reachable) :
    (i.checkStrict = .ok () ↔
      ∀ p ∈ i.parameters, BitRange.Sound i.architecture.bits p.ranges) ∧
    ∀ e, i.checkStrict = .error e ↔ ∃ before p after, i.parameters = before ++ p :: after ∧
      (∀ q ∈ before, BitRange.Sound i.architecture.bits q.ranges) ∧
      BitRange.FirstFault p.name i.architecture.bits p.ranges e := by
  have hv := h.valid.parameters
  refine ⟨?_, fun e => ?_⟩
  · rw [checkStrict_eq_ok_iff, strictFault?, List.findSome?_eq_none_iff]
    exact forall₂_congr fun p hp => (hv p hp).strictFault?_eq_none_iff
  · rw [checkStrict_eq_error_iff, strictFault?, List.findSome?_eq_some_iff]
    refine exists_congr fun before => exists_congr fun p => exists_congr fun after => ?_
    refine and_congr_right fun hs => ?_
    rw [hs, List.forall_mem_append, List.forall_mem_cons] at hv
    obtain ⟨hbefore, hp, -⟩ := hv
    rw [hp.strictFault?_eq_some_iff, and_comm]
    refine and_congr_left' (forall₂_congr fun q hq => ?_)
    exact (hbefore q hq).strictFault?_eq_none_iff

/-- A parameter with fixed bits between its ranges. -/
def parted : Parameter :=
  ⟨"rs", "0-3,##,6-7", none, [⟨4, .bits 0 3⟩, ⟨2, .const 2 0⟩, ⟨0, .bits 6 7⟩]⟩

/-- A parameter with a range over bits of the one before it, and then one that goes beyond
bit 7. -/
def crossing : Parameter :=
  ⟨"imm", "2-5,0-3,6-9", none, [⟨8, .bits 2 5⟩, ⟨4, .bits 0 3⟩, ⟨0, .bits 6 9⟩]⟩

theorem checkStrict_outcome_sample :
    let i : Instruction := ⟨"st", none, [parted, crossing], .bits8⟩
    i.Reachable ∧ i.checkStrict = .error (.bitRepeated "imm" 2) := by
  intro i
  have h : i.Reachable := reachable_iff_valid.mpr ⟨by decide, by decide, by decide +kernel⟩
  have hparted : parted.ranges = [⟨0, 3⟩, ⟨6, 7⟩] := by decide +kernel
  have hcrossing : crossing.ranges = [⟨2, 5⟩, ⟨0, 3⟩, ⟨6, 9⟩] := by decide +kernel
  have sound : BitRange.Sound 8 parted.ranges := by
    refine hparted ▸ ⟨by decide, ?_⟩
    simp [BitRange.Reads]
    omega
  have fault : BitRange.Fault "imm" 8 [⟨2, 5⟩] ⟨0, 3⟩ (.bitRepeated "imm" 2) := by
    refine .repeated (by decide) ⟨by decide, ⟨2, 5⟩, by decide, by decide⟩ ?_
    rintro b hb ⟨-, t, ht, htb⟩
    rw [List.mem_singleton.mp ht] at htb
    exact absurd htb.1 (Nat.not_le.mpr hb)
  refine ⟨h, ((checkStrict_outcome h).2 _).mpr ⟨[parted], crossing, [], rfl, ?_, ?_⟩⟩
  · exact List.forall_mem_singleton.mpr sound
  · exact ⟨[⟨2, 5⟩], ⟨0, 3⟩, [⟨6, 9⟩], hcrossing, ⟨by decide, by simp⟩, fault⟩

end Instruction

end BitLayout
