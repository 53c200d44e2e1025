import BitLayout.InstructionSet
import BitLayout.Proofs.Record

/-! # Accepted sets

A set keeps accepted instructions under their own names, each name once. Inserting
an instruction and loading a document, in either mode, keep it so.
-/

namespace BitLayout

namespace OrderedMap

variable {α : Type} {m : OrderedMap α} {name : String}

theorem get?_isSome_iff : (m.get? name).isSome = true ↔ name ∈ m.names := by
  obtain ⟨entries⟩ := m
  simp only [get?, names]
  induction entries with
  | nil => simp
  | cons e rest ih =>
    rw [List.lookup_cons, List.map_cons, List.mem_cons]
    by_cases h : name = e.1
    · simp [h]
    · rw [beq_eq_false_iff_ne.mpr h]
      simp [h, ih]

theorem entries_set (h : name ∉ m.names) (a : α) :
    (m.set name a).entries = m.entries ++ [(name, a)] := setEntry_eq_append h a

end OrderedMap

namespace InstructionSet

variable {s t : InstructionSet} {i : Instruction} {mode : Mode} {e : Schema.Error}

/-- Every instruction is accepted and stands under its own name, and no name occurs twice. -/
structure Valid (s : InstructionSet) : Prop where
  entries : ∀ e ∈ s.entries, e.1 = e.2.name ∧ e.2.Valid
  nodup : s.names.Nodup

def append (s : InstructionSet) (i : Instruction) : InstructionSet :=
  ⟨s.entries ++ [(i.name, i)]⟩

theorem insert_of_not_mem (h : i.name ∉ s.names) : s.insert i = .ok (s.append i) := by
  have hg : ¬ (s.get? i.name).isSome = true := fun hs => h (OrderedMap.get?_isSome_iff.mp hs)
  have hs : s.set i.name i = s.append i := congrArg OrderedMap.mk (OrderedMap.entries_set h i)
  rw [insert, if_neg hg, hs]

theorem insert_of_mem (h : i.name ∈ s.names) :
    s.insert i = .error (.duplicateInstruction i.name) := by
  rw [insert, if_pos (OrderedMap.get?_isSome_iff.mpr h)]

theorem Valid.append (hs : s.Valid) (hi : i.Valid) (h : i.name ∉ s.names) :
    (s.append i).Valid where
  entries e he := by
    rcases List.mem_append.mp he with he | he
    · exact hs.entries e he
    · rw [List.mem_singleton.mp he]
      exact ⟨rfl, hi⟩
  nodup := by
    change ((s.entries ++ [(i.name, i)]).map (·.1)).Nodup
    rw [List.map_append, List.map_singleton, ← List.concat_eq_append]
    exact hs.nodup.concat h

theorem Valid.insert (hs : s.Valid) (hi : i.Valid) (h : s.insert i = .ok t) : t.Valid := by
  by_cases hm : i.name ∈ s.names
  · rw [insert_of_mem hm] at h
    cases h
  · rw [insert_of_not_mem hm] at h
    cases h
    exact hs.append hi hm

theorem valid_empty : Valid OrderedMap.empty where
  entries := by simp [OrderedMap.empty]
  nodup := by simp [OrderedMap.names, OrderedMap.empty]

theorem valid_of_convert {r : Schema.Record} (h : convert mode r = .ok i) : i.Valid := by
  obtain ⟨k, hk, h⟩ := Outcome.bind_eq_ok_iff.mp h
  have hv := Schema.Record.valid_of_toInstruction hk
  cases mode with
  | lenient =>
    cases h
    exact hv
  | strict =>
    obtain ⟨-, -, h⟩ := Outcome.bind_eq_ok_iff.mp h
    cases h
    exact hv

theorem Valid.add {r : Schema.Record} (hs : s.Valid) (h : add mode s r = .ok t) : t.Valid := by
  obtain ⟨i, hi, h⟩ := Outcome.bind_eq_ok_iff.mp h
  exact hs.insert (valid_of_convert (Outcome.mapError_eq_ok_iff.mp hi)) h

theorem valid_of_ofRecords {records : List Schema.Record} (h : ofRecords mode records = .ok t) :
    t.Valid := by
  refine Outcome.foldlM_induction ?_ valid_empty h
  intro s r u hs hu
  exact hs.add hu

theorem valid_of_ofText {text : String} (h : ofText mode text = .ok t) : t.Valid := by
  obtain ⟨records, -, h⟩ := Outcome.bind_eq_ok_iff.mp h
  exact valid_of_ofRecords h

def Edit.Built : Edit → Prop
  | .insert i => i.Reachable
  | .load _ _ => True

/-- A set that any row of edits, refused ones included, leaves behind from the empty one. -/
inductive Reachable : InstructionSet → Prop
  | empty : Reachable OrderedMap.empty
  | perform {s : InstructionSet} (e : Edit) : e.Built → Reachable s → Reachable (s.perform e).1

theorem Valid.edit {e : Edit} (hs : s.Valid) (he : e.Built) (h : s.edit e = .ok t) :
    t.Valid := by
  cases e with
  | insert i => exact hs.insert (Instruction.Reachable.valid he) h
  | load mode text => exact valid_of_ofText h

theorem Valid.perform {e : Edit} (hs : s.Valid) (he : e.Built) : (s.perform e).1.Valid := by
  unfold InstructionSet.perform
  split
  · rename_i t h
    exact hs.edit he h
  · exact hs

theorem Reachable.valid (h : s.Reachable) : s.Valid := by
  induction h with
  | empty => exact valid_empty
  | perform e he _ ih => exact ih.perform he

end InstructionSet

end BitLayout
