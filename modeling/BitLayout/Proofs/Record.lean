import Mathlib.Data.List.Basic
import BitLayout.Schema.Shape
import BitLayout.Proofs.Instruction
import BitLayout.Proofs.Json.RoundTrip

/-! # Records and their written form

The record of an accepted instruction turns back into the instruction, and the
value of a record spells the record.
-/

namespace BitLayout.Schema

theorem mapM_toParameter {ps : List Parameter} (h : ∀ p ∈ ps, p.Valid) :
    (ps.map ParameterRecord.ofParameter).mapM ParameterRecord.toParameter = .ok ps := by
  rw [List.mapM_map]
  exact Parameter.mapM_make h

theorem Record.toInstruction_ofInstruction {i : Instruction} (h : i.Valid) :
    (ofInstruction i).toInstruction = .ok i := by
  rw [toInstruction, ofInstruction, mapM_toParameter h.parameters, Outcome.ok_bind]
  exact h.make_eq

theorem valid_of_mapM {rs : List ParameterRecord} {ps : List Parameter}
    (h : rs.mapM ParameterRecord.toParameter = .ok ps) : ∀ p ∈ ps, p.Valid := by
  have hf := Outcome.mapM_eq_ok_iff.mp h
  clear h
  induction hf with
  | nil => simp
  | cons hp _ ih =>
    rw [List.forall_mem_cons]
    exact ⟨Parameter.valid_of_make hp, ih⟩

theorem Record.valid_of_toInstruction {r : Record} {i : Instruction}
    (h : r.toInstruction = .ok i) : i.Valid := by
  obtain ⟨ps, hp, h⟩ := Outcome.bind_eq_ok_iff.mp h
  exact Instruction.valid_of_make h (valid_of_mapM hp)

theorem mapM_spelled {α β : Type} {f : α → β} {g : β → Option α} (h : ∀ a, g (f a) = some a)
    (as : List α) : (as.map f).mapM g = some as := by
  induction as with
  | nil => rfl
  | cons a as ih =>
    rw [List.map_cons, List.mapM_cons, h, ih]
    rfl

theorem ParameterRecord.ofJson?_toJson (r : ParameterRecord) : ofJson? r.toJson = some r := by
  obtain ⟨name, source, description⟩ := r
  cases description <;> rfl

theorem parametersOf?_toJson (rs : List ParameterRecord) :
    parametersOf? (.array (rs.map ParameterRecord.toJson)) = some rs :=
  mapM_spelled ParameterRecord.ofJson?_toJson rs

theorem Record.ofJson?_toJson (r : Record) : ofJson? r.toJson = some r := by
  obtain ⟨name, architecture, description, parameters⟩ := r
  have hp := parametersOf?_toJson parameters
  cases description with
  | none =>
    change (parametersOf? (.array (parameters.map ParameterRecord.toJson)) >>= fun ps =>
      some (Record.mk name architecture none ps)) = _
    rw [hp]
    rfl
  | some text =>
    change (parametersOf? (.array (parameters.map ParameterRecord.toJson)) >>= fun ps =>
      some (Record.mk name architecture (some text) ps)) = _
    rw [hp]
    rfl

theorem documentOf?_toJson (rs : List Record) :
    documentOf? (.array (rs.map Record.toJson)) = some rs := by
  rw [documentOf?, recordsOf?, mapM_spelled Record.ofJson?_toJson]
  rfl

theorem storable_description (depth : Nat) (description : Option String) :
    ∀ m ∈ descriptionMember description, Json.Storable depth m.2 := by
  cases description with
  | none => simp [descriptionMember]
  | some text =>
    intro m hm
    rw [descriptionMember, List.mem_singleton] at hm
    rw [hm]
    exact .string text

theorem ParameterRecord.storable (r : ParameterRecord) (depth : Nat) :
    Json.Storable (depth + 1) r.toJson := by
  refine .object fun m hm => ?_
  rcases List.mem_append.mp hm with hm | hm
  · rcases List.mem_pair.mp hm with rfl | rfl <;> exact .string _
  · exact storable_description depth r.description m hm

theorem Record.storable (r : Record) (depth : Nat) : Json.Storable (depth + 3) r.toJson := by
  refine .object fun m hm => ?_
  rcases List.mem_append.mp hm with hm | hm
  · rcases List.mem_append.mp hm with hm | hm
    · rcases List.mem_pair.mp hm with rfl | rfl <;> exact .string _
    · exact storable_description (depth + 2) r.description m hm
  · rw [List.mem_singleton.mp hm]
    refine .array fun v hv => ?_
    obtain ⟨p, -, rfl⟩ := List.mem_map.mp hv
    exact p.storable depth

/-- The document of a list of records nests no deeper than the reader goes. -/
theorem storable_document (rs : List Record) :
    Json.Storable Json.depthLimit (.array (rs.map Record.toJson)) := by
  refine .array fun v hv => ?_
  obtain ⟨r, -, rfl⟩ := List.mem_map.mp hv
  exact r.storable 123

end BitLayout.Schema
