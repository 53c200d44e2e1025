import BitLayout.Proofs.InstructionSet

/-! # Loading records

A list of records loads when every record is accepted by itself and no two have the
same name; the set then holds the instructions of the records in their order. A
loading that fails reports the first record that is not accepted or whose name is
taken, and in it the first fault in the order of the checks.
-/

namespace BitLayout

namespace Schema

variable {r : ParameterRecord} {rs : List ParameterRecord} {e : EncodingError}

def ParameterRecord.Convertible (r : ParameterRecord) : Prop :=
  r.name ≠ "" ∧ r.source ≠ "" ∧ ∃ l, Layout.ofSource r.source = .ok l

theorem ParameterRecord.exists_toParameter_iff :
    (∃ p, r.toParameter = .ok p) ↔ r.Convertible := Parameter.exists_make_iff

theorem exists_mapM_toParameter_iff :
    (∃ ps, rs.mapM ParameterRecord.toParameter = .ok ps) ↔ ∀ r ∈ rs, r.Convertible := by
  simp only [Outcome.mapM_eq_ok_iff, Outcome.exists_forall₂_iff,
    ParameterRecord.exists_toParameter_iff]

theorem map_name_of_mapM {ps : List Parameter}
    (h : rs.mapM ParameterRecord.toParameter = .ok ps) :
    ps.map (·.name) = rs.map (·.name) := by
  refine Outcome.map_eq_of_forall₂ (fun r p hp => ?_) (Outcome.mapM_eq_ok_iff.mp h)
  exact (Parameter.make_eq_ok_iff.mp hp).2.2.2.1

namespace Record

variable {r : Record}

/-- The record has convertible parameters, a known architecture, a name, and no name twice
among its parameters. -/
structure Convertible (r : Record) : Prop where
  parameters : ∀ p ∈ r.parameters, p.Convertible
  architecture : ∃ a : Architecture, a.tag = r.architecture
  name_ne : r.name ≠ ""
  nodup : (r.parameters.map (·.name)).Nodup

/-- What is wrong with the first bad parameter of a record, or else with the record. -/
inductive Fault (r : Record) : EncodingError → Prop
  | parameter {before after : List ParameterRecord} {p : ParameterRecord} {e : EncodingError} :
      r.parameters = before ++ p :: after → (∀ q ∈ before, q.Convertible) →
      Parameter.Fault p.name p.source e → Fault r e
  | instruction {e : EncodingError} : (∀ p ∈ r.parameters, p.Convertible) →
      Instruction.Fault r.name (r.parameters.map (·.name)) r.architecture e → Fault r e

theorem exists_toInstruction_iff : (∃ i, r.toInstruction = .ok i) ↔ r.Convertible := by
  simp only [toInstruction, Outcome.bind_eq_ok_iff]
  constructor
  · rintro ⟨i, ps, hp, hi⟩
    obtain ⟨hne, hn, ha⟩ := Instruction.exists_make_iff.mp ⟨i, hi⟩
    exact ⟨exists_mapM_toParameter_iff.mp ⟨ps, hp⟩, ha, hne, map_name_of_mapM hp ▸ hn⟩
  · intro h
    obtain ⟨ps, hp⟩ := exists_mapM_toParameter_iff.mpr h.parameters
    have hn : (ps.map (·.name)).Nodup := by
      rw [map_name_of_mapM hp]
      exact h.nodup
    obtain ⟨i, hi⟩ : ∃ i, Instruction.make r.name r.description ps r.architecture = .ok i :=
      Instruction.exists_make_iff.mpr ⟨h.name_ne, hn, h.architecture⟩
    exact ⟨i, ps, hp, hi⟩

theorem name_of_toInstruction {i : Instruction} (h : r.toInstruction = .ok i) :
    i.name = r.name := by
  obtain ⟨ps, -, h⟩ := Outcome.bind_eq_ok_iff.mp h
  exact (Instruction.make_eq_ok_iff.mp h).2.2.2.1

end Record

end Schema

namespace InstructionSet

open Schema (Record)

variable {mode : Mode} {r : Record} {records : List Record} {s t : InstructionSet}
  {i : Instruction}

theorem convert_eq_ok_iff : convert mode r = .ok i ↔
    r.toInstruction = .ok i ∧ (mode = .strict → i.checkStrict = .ok ()) := by
  rw [convert, Outcome.bind_eq_ok_iff]
  cases mode with
  | lenient => simp
  | strict =>
    constructor
    · rintro ⟨k, hk, h⟩
      obtain ⟨⟨⟩, hc, h⟩ := Outcome.bind_eq_ok_iff.mp h
      cases h
      exact ⟨hk, fun _ => hc⟩
    · rintro ⟨hi, hc⟩
      exact ⟨i, hi, Outcome.bind_eq_ok_iff.mpr ⟨(), hc rfl, rfl⟩⟩

/-- The record is convertible, and passes the strict check if the mode asks for it. -/
def Accepted (mode : Mode) (r : Record) : Prop :=
  r.Convertible ∧ (mode = .strict → ∀ i, r.toInstruction = .ok i → i.checkStrict = .ok ())

/-- What is wrong with a record when some names are taken: it does not convert, or else
it fails the strict check, or else its name is one of them. -/
inductive Fault (mode : Mode) (taken : List String) (r : Record) : Schema.Error → Prop
  | conversion {e : EncodingError} : r.Fault e → Fault mode taken r (.encoding r.name e)
  | strict {i : Instruction} {e : EncodingError} : mode = .strict → r.toInstruction = .ok i →
      i.checkStrict = .error e → Fault mode taken r (.encoding r.name e)
  | duplicate : Accepted mode r → r.name ∈ taken →
      Fault mode taken r (.duplicateInstruction r.name)

theorem accepted_iff : Accepted mode r ↔ ∃ i, convert mode r = .ok i := by
  simp only [Accepted, convert_eq_ok_iff, ← Record.exists_toInstruction_iff]
  constructor
  · rintro ⟨⟨i, hi⟩, hc⟩
    exact ⟨i, hi, fun hm => hc hm i hi⟩
  · rintro ⟨i, hi, hc⟩
    refine ⟨⟨i, hi⟩, fun hm k hk => ?_⟩
    rw [hi] at hk
    cases hk
    exact hc hm

theorem name_of_convert (h : convert mode r = .ok i) : i.name = r.name :=
  Record.name_of_toInstruction (convert_eq_ok_iff.mp h).1

theorem add_eq_ok_iff : add mode s r = .ok t ↔
    ∃ i, convert mode r = .ok i ∧ r.name ∉ s.names ∧ t = s.append i := by
  simp only [add, Outcome.bind_eq_ok_iff, Outcome.mapError_eq_ok_iff]
  refine exists_congr fun i => and_congr_right fun hi => ?_
  rw [← name_of_convert hi]
  by_cases hm : i.name ∈ s.names
  · simp [insert_of_mem hm, hm]
  · simp [insert_of_not_mem hm, hm, eq_comm]

@[simp] theorem names_append (s : InstructionSet) (i : Instruction) :
    (s.append i).names = s.names ++ [i.name] := by
  simp [append, OrderedMap.names]

theorem foldlM_add_eq_ok_iff (hs : s.names.Nodup) : records.foldlM (add mode) s = .ok t ↔
    (s.names ++ records.map (·.name)).Nodup ∧ ∃ is,
      List.Forall₂ (fun r i => convert mode r = .ok i) records is ∧
      t = ⟨s.entries ++ is.map fun i => (i.name, i)⟩ := by
  -- the names of the set and of the records to come stay the same list in every step
  induction records generalizing s with
  | nil =>
    simp only [List.map_nil, List.append_nil, List.forall₂_nil_left_iff, exists_eq_left, hs,
      true_and]
    exact ⟨fun h => by cases h; rfl, fun h => h ▸ rfl⟩
  | cons r records ih =>
    rw [List.foldlM_cons, Outcome.bind_eq_ok_iff]
    constructor
    · rintro ⟨u, hu, h⟩
      obtain ⟨i, hi, hfresh, rfl⟩ := add_eq_ok_iff.mp hu
      have hn : (s.append i).names.Nodup := by
        rw [names_append, name_of_convert hi, ← List.concat_eq_append]
        exact hs.concat hfresh
      obtain ⟨hnodup, is, hf, rfl⟩ := (ih hn).mp h
      refine ⟨?_, i :: is, .cons hi hf, ?_⟩
      · simpa [name_of_convert hi] using hnodup
      · simp [append]
    · rintro ⟨hnodup, _, hf, rfl⟩
      cases hf with
      | @cons _ i _ is hi hf =>
        have hsplit : ((s.append i).names ++ records.map (·.name)).Nodup := by
          simpa [name_of_convert hi] using hnodup
        have hn : (s.append i).names.Nodup := (List.nodup_append.mp hsplit).1
        have hfresh : r.name ∉ s.names := fun hm =>
          (List.nodup_append.mp hnodup).2.2 _ hm _ List.mem_cons_self rfl
        refine ⟨s.append i, add_eq_ok_iff.mpr ⟨i, hi, hfresh, rfl⟩, (ih hn).mpr ?_⟩
        exact ⟨hsplit, is, hf, by simp [append]⟩

theorem names_empty : (OrderedMap.empty : InstructionSet).names = [] := rfl

theorem ofRecords_eq_ok_iff : ofRecords mode records = .ok s ↔
    (records.map (·.name)).Nodup ∧ ∃ is,
      List.Forall₂ (fun r i => convert mode r = .ok i) records is ∧
      s = ⟨is.map fun i => (i.name, i)⟩ := by
  rw [ofRecords, foldlM_add_eq_ok_iff (by simp [names_empty]), names_empty]
  rfl

theorem exists_ofRecords_iff : (∃ s, ofRecords mode records = .ok s) ↔
    (∀ r ∈ records, Accepted mode r) ∧ (records.map (·.name)).Nodup := by
  simp only [ofRecords_eq_ok_iff, accepted_iff, ← Outcome.exists_forall₂_iff]
  constructor
  · rintro ⟨s, hn, is, hf, -⟩
    exact ⟨⟨is, hf⟩, hn⟩
  · rintro ⟨⟨is, hf⟩, hn⟩
    exact ⟨_, hn, is, hf, rfl⟩

theorem forall₂_toInstruction (h : ofRecords mode records = .ok s) :
    List.Forall₂ (fun r i => r.toInstruction = .ok i) records s.values := by
  obtain ⟨-, is, hf, rfl⟩ := ofRecords_eq_ok_iff.mp h
  have hv : OrderedMap.values ⟨is.map fun i => (i.name, i)⟩ = is := by
    simp [OrderedMap.values, Function.comp_def]
  rw [hv]
  exact hf.imp fun r i hi => (convert_eq_ok_iff.mp hi).1

end InstructionSet

end BitLayout
