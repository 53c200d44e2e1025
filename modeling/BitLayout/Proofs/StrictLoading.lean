import BitLayout.Proofs.Loading
import BitLayout.Proofs.Reload

/-! # Strict loading

Loading with the strict check on every record and loading first and checking the set
afterwards end alike: with the same set, or with the error of the first instruction
that the check refuses.
-/

namespace BitLayout

namespace Schema

variable {r : Record} {i : Instruction}

theorem ParameterRecord.ofParameter_of_toParameter {r : ParameterRecord} {p : Parameter}
    (h : r.toParameter = .ok p) : ofParameter p = r := by
  obtain ⟨-, -, -, hn, hs, hd⟩ := Parameter.make_eq_ok_iff.mp h
  rw [ofParameter, hn, hs, hd]

theorem map_ofParameter_of_mapM {rs : List ParameterRecord} {ps : List Parameter}
    (h : rs.mapM ParameterRecord.toParameter = .ok ps) :
    ps.map ParameterRecord.ofParameter = rs := by
  rw [← List.map_id rs]
  refine Outcome.map_eq_of_forall₂ (fun r p hp => ?_) (Outcome.mapM_eq_ok_iff.mp h)
  exact ParameterRecord.ofParameter_of_toParameter hp

theorem Record.ofInstruction_of_toInstruction (h : r.toInstruction = .ok i) :
    ofInstruction i = r := by
  obtain ⟨ps, hp, h⟩ := Outcome.bind_eq_ok_iff.mp h
  obtain ⟨-, -, ha, hn, hd, hps⟩ := Instruction.make_eq_ok_iff.mp h
  rw [ofInstruction, hn, hd, hps, map_ofParameter_of_mapM hp, Architecture.ofTag_eq_ok_iff.mp ha]

end Schema

namespace InstructionSet

open Schema (Record)

variable {mode : Mode} {records : List Record} {s : InstructionSet}

theorem toRecords_of_ofRecords (h : ofRecords mode records = .ok s) : s.toRecords = records := by
  rw [toRecords, ← List.map_id records]
  refine Outcome.map_eq_of_forall₂ (fun r i hi => ?_) (forall₂_toInstruction h)
  exact Record.ofInstruction_of_toInstruction hi

theorem ofRecords_strict_of_lenient (h : ofRecords .lenient records = .ok s) :
    ofRecords .strict records = s.checkStrict.map fun _ => s := by
  -- the records are those of the loaded set, so this is the reloading of a valid set
  have hv := valid_of_ofRecords h
  rw [← toRecords_of_ofRecords h]
  exact hv.ofRecords_toRecords .strict

theorem Accepted.lenient {r : Record} (h : Accepted .strict r) : Accepted .lenient r :=
  ⟨h.1, fun hm => by cases hm⟩

theorem exists_lenient_of_strict (h : ofRecords .strict records = .ok s) :
    ∃ t, ofRecords .lenient records = .ok t := by
  obtain ⟨ha, hn⟩ := exists_ofRecords_iff.mp ⟨s, h⟩
  exact exists_ofRecords_iff.mpr ⟨fun r hr => (ha r hr).lenient, hn⟩

theorem ofText_lenient_of_strict {text : String} (h : ofText .strict text = .ok s) :
    ofText .lenient text = .ok s := by
  obtain ⟨records, hr, hs⟩ := Outcome.bind_eq_ok_iff.mp h
  obtain ⟨t, ht⟩ := exists_lenient_of_strict hs
  rw [ofRecords_strict_of_lenient ht] at hs
  obtain ⟨-, -, rfl⟩ := Outcome.map_eq_ok_iff.mp hs
  exact Outcome.bind_eq_ok_iff.mpr ⟨records, hr, ht⟩

/-- When the lenient loading succeeds, the strict one ends as the strict check of the loaded
set does, with the same set or with the check's error. When the lenient loading fails, the
strict one does. -/
theorem ofRecords_strict_outcome (records : List Record) :
    (∀ s, ofRecords .lenient records = .ok s →
      (s.checkStrict = .ok () → ofRecords .strict records = .ok s) ∧
      ∀ e, s.checkStrict = .error e → ofRecords .strict records = .error e) ∧
    (∀ e, ofRecords .lenient records = .error e → ∃ f, ofRecords .strict records = .error f) ∧
    ((∃ s, ofRecords .strict records = .ok s) ↔
      ∃ s, ofRecords .lenient records = .ok s ∧ s.checkStrict = .ok ()) := by
  refine ⟨fun s h => ⟨fun hc => ?_, fun e hc => ?_⟩, fun e h => ?_, ?_⟩
  · rw [ofRecords_strict_of_lenient h, hc]
    rfl
  · rw [ofRecords_strict_of_lenient h, hc]
    rfl
  · cases hs : ofRecords .strict records with
    | error f => exact ⟨f, rfl⟩
    | ok t =>
      obtain ⟨u, hu⟩ := exists_lenient_of_strict hs
      rw [h] at hu
      cases hu
  · constructor
    · rintro ⟨t, ht⟩
      obtain ⟨s, hs⟩ := exists_lenient_of_strict ht
      rw [ofRecords_strict_of_lenient hs] at ht
      obtain ⟨⟨⟩, hc, rfl⟩ := Outcome.map_eq_ok_iff.mp ht
      exact ⟨s, hs, hc⟩
    · rintro ⟨s, hs, hc⟩
      refine ⟨s, ?_⟩
      rw [ofRecords_strict_of_lenient hs, hc]
      rfl

/-- A set whose second instruction has a range that leaves its words. -/
def across : InstructionSet := ⟨[
  ("add", ⟨"add", none, [⟨"rd", "0-3,#", none, [⟨1, .bits 0 3⟩, ⟨0, .const 1 0⟩]⟩], .bits8⟩),
  ("ld", ⟨"ld", none, [⟨"rs", "2-9", none, [⟨0, .bits 2 9⟩]⟩], .bits8⟩)]⟩

theorem ofRecords_strict_outcome_sample :
    ofRecords .lenient across.toRecords = .ok across ∧
      across.checkStrict = .error (.encoding "ld" (.bitOutside "rs" 9 8)) ∧
      ofRecords .strict across.toRecords = .error (.encoding "ld" (.bitOutside "rs" 9 8)) := by
  have hload : ofRecords .lenient across.toRecords = .ok across := by decide +kernel
  have hcheck : across.checkStrict = .error (.encoding "ld" (.bitOutside "rs" 9 8)) := by
    decide +kernel
  exact ⟨hload, hcheck, ((ofRecords_strict_outcome _).1 across hload).2 _ hcheck⟩

end InstructionSet

end BitLayout
