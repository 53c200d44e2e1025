import BitLayout.Proofs.InstructionSet

/-! # Written sets

The document of a set reads back as the set: its records turn back into the
instructions, one after the other, and none is refused but by the strict check. So
a strict reading ends as the strict check of the set does.
-/

namespace BitLayout.InstructionSet

open Schema (Record)

variable {s : InstructionSet} {i : Instruction} {mode : Mode}

def checkAs : Mode → Instruction → Except EncodingError Unit
  | .lenient, _ => .ok ()
  | .strict, i => i.checkStrict

theorem convert_ofInstruction (h : i.Valid) :
    convert mode (Record.ofInstruction i) = (checkAs mode i).map fun _ => i := by
  rw [convert, Record.toInstruction_ofInstruction h, Outcome.ok_bind]
  cases mode with
  | lenient => rfl
  | strict =>
    change (i.checkStrict >>= fun _ => .ok i) = i.checkStrict.map fun _ => i
    cases i.checkStrict <;> rfl

theorem add_ofInstruction (hi : i.Valid) (h : i.name ∉ s.names) :
    add mode s (Record.ofInstruction i) =
      ((checkAs mode i).mapError (.encoding i.name)).map fun _ => s.append i := by
  rw [add, convert_ofInstruction hi]
  cases checkAs mode i with
  | error cause => rfl
  | ok u => exact insert_of_not_mem h

/-- Adding the records of accepted instructions with new names appends the instructions, or
stops at the first that fails the check. -/
theorem foldlM_add (is : List Instruction) (hi : ∀ i ∈ is, i.Valid)
    (hn : (s.names ++ is.map (·.name)).Nodup) :
    (is.map Record.ofInstruction).foldlM (add mode) s =
      (is.forM fun i => (checkAs mode i).mapError (.encoding i.name)).map fun _ =>
        ⟨s.entries ++ is.map fun i => (i.name, i)⟩ := by
  -- every step appends to the set, so the induction is over all sets
  induction is generalizing s with
  | nil =>
    rw [List.map_nil, List.map_nil, List.append_nil]
    rfl
  | cons i is ih =>
    rw [List.forall_mem_cons] at hi
    have fresh : i.name ∉ s.names := by
      rw [List.map_cons, List.nodup_append] at hn
      exact fun hm => hn.2.2 _ hm _ List.mem_cons_self rfl
    have names : (s.append i).names ++ is.map (·.name) = s.names ++ (i :: is).map (·.name) := by
      simp [append, OrderedMap.names]
    have entries : (s.append i).entries ++ is.map (fun i => (i.name, i)) =
        s.entries ++ (i :: is).map fun i => (i.name, i) := by
      simp [append]
    rw [List.map_cons, List.foldlM_cons, add_ofInstruction hi.1 fresh, List.forM_eq_forM,
      List.forM_cons, ← List.forM_eq_forM]
    cases checkAs mode i with
    | error cause => rfl
    | ok u =>
      change (is.map Record.ofInstruction).foldlM (add mode) (s.append i) = _
      rw [ih hi.2 (names ▸ hn), entries]
      rfl

theorem Valid.map_values (h : s.Valid) : (s.values.map fun i => (i.name, i)) = s.entries := by
  obtain ⟨entries⟩ := s
  have hk := h.entries
  clear h
  induction entries with
  | nil => rfl
  | cons e es ih =>
    rw [List.forall_mem_cons] at hk
    obtain ⟨⟨he, -⟩, hes⟩ := hk
    change (e.2.name, e.2) :: _ = _
    rw [← he]
    exact congrArg (e :: ·) (ih hes)

theorem Valid.map_names (h : s.Valid) : s.values.map (·.name) = s.names := by
  rw [OrderedMap.names, ← h.map_values, List.map_map]
  rfl

theorem Valid.values (h : s.Valid) : ∀ i ∈ s.values, i.Valid := by
  intro i hi
  obtain ⟨e, he, rfl⟩ := List.mem_map.mp hi
  exact (h.entries e he).2

theorem Valid.ofRecords_toRecords (h : s.Valid) (mode : Mode) :
    ofRecords mode s.toRecords =
      (s.values.forM fun i => (checkAs mode i).mapError (.encoding i.name)).map fun _ => s := by
  have hn : (OrderedMap.names (.empty : InstructionSet) ++ s.values.map (·.name)).Nodup := by
    rw [h.map_names]
    exact h.nodup
  rw [ofRecords, toRecords, foldlM_add s.values h.values hn, h.map_values]
  rfl

theorem recordsOfText_toText (s : InstructionSet) : recordsOfText s.toText = .ok s.toRecords := by
  have hr := Json.readFirst_text (Schema.storable_document s.toRecords)
  rw [recordsOfText, toText, hr]
  simp only [Except.mapError, Outcome.ok_bind, Schema.documentOf?_toJson]
  rfl

theorem Valid.reload_eq (h : s.Valid) (mode : Mode) :
    ofText mode s.toText =
      (s.values.forM fun i => (checkAs mode i).mapError (.encoding i.name)).map fun _ => s := by
  rw [ofText, recordsOfText_toText, ← h.ofRecords_toRecords mode]
  rfl

theorem forM_lenient (is : List Instruction) :
    (is.forM fun i => (checkAs .lenient i).mapError (Schema.Error.encoding i.name)) = .ok () := by
  induction is with
  | nil => rfl
  | cons i is ih => exact ih

theorem Valid.ofText_lenient (h : s.Valid) : ofText .lenient s.toText = .ok s := by
  rw [h.reload_eq, forM_lenient]
  rfl

/-- The document of a reachable set reads back as the same set; a strict reading succeeds
when the strict check of the set does and otherwise fails with its error. -/
theorem ofText_toText (h : s.Reachable) :
    ofText .lenient s.toText = .ok s ∧
      (s.checkStrict = .ok () → ofText .strict s.toText = .ok s) ∧
      ∀ e, s.checkStrict = .error e → ofText .strict s.toText = .error e := by
  have hv := h.valid
  have strict : ofText .strict s.toText = s.checkStrict.map fun _ => s := hv.reload_eq .strict
  refine ⟨hv.ofText_lenient, fun hc => ?_, fun e hc => ?_⟩
  · rw [strict, hc]
    rfl
  · rw [strict, hc]
    rfl

/-- An instruction whose texts need escapes. -/
def escaped : Instruction where
  name := "add \"\\é"
  description := some ""
  parameters := [⟨"rd", "##,0-3", some "\n\x01", [⟨4, .const 2 0⟩, ⟨0, .bits 0 3⟩]⟩]
  architecture := .bits8

/-- An instruction that reads past its words. -/
def wide : Instruction where
  name := "ld"
  description := none
  parameters := [⟨"rs", "2-9", none, [⟨0, .bits 2 9⟩]⟩]
  architecture := .bits8

theorem reachable_escaped : escaped.Reachable :=
  Instruction.reachable_iff_valid.mpr ⟨by decide, by decide, by decide +kernel⟩

theorem reachable_wide : wide.Reachable :=
  Instruction.reachable_iff_valid.mpr ⟨by decide, by decide, by decide +kernel⟩

/-- The set of the first instruction passes the strict check, the set of both does not. -/
theorem ofText_toText_sample :
    let s := (perform OrderedMap.empty (.insert escaped)).1
    let t := (perform s (.insert wide)).1
    t.values = [escaped, wide] ∧ s.Reachable ∧ t.Reachable ∧ ofText .strict s.toText = .ok s ∧
      ofText .lenient t.toText = .ok t ∧
      ofText .strict t.toText = .error (.encoding "ld" (.bitOutside "rs" 9 8)) := by
  intro s t
  have hs : s.Reachable := .perform (.insert escaped) reachable_escaped .empty
  have ht : t.Reachable := .perform (.insert wide) reachable_wide hs
  obtain ⟨-, passes, -⟩ := ofText_toText hs
  obtain ⟨lenient, -, fails⟩ := ofText_toText ht
  refine ⟨by decide +kernel, hs, ht, passes ?_, lenient, fails _ ?_⟩ <;> decide +kernel

end BitLayout.InstructionSet
