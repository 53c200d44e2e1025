import Mathlib.Data.List.Perm.Basic
import BitLayout.Proofs.Session

/-! # Orders of records

A loaded set gives back the records that it was loaded from, so it can be loaded from no
other list. The same records in another order load too when they load at all, and then the
two sets have the same entries: a name leads to the same instruction in both, and one
passes the strict check when the other does.
-/

namespace BitLayout

namespace OrderedMap

variable {α : Type} {m n : OrderedMap α}

theorem sameEntries_iff_perm [DecidableEq α] (hm : m.names.Nodup) (hn : n.names.Nodup) :
    m.sameEntries n = true ↔ m.entries.Perm n.entries := by
  simp only [sameEntries, Bool.and_eq_true, beq_iff_eq, List.all_eq_true,
    get?_eq_some_iff hn]
  constructor
  · rintro ⟨hsize, hmem⟩
    have distinct : m.entries.Nodup := .of_map _ hm
    exact (List.subperm_of_subset distinct hmem).perm_of_length_le (Nat.le_of_eq hsize.symm)
  · intro h
    exact ⟨h.length_eq, fun e he => h.mem_iff.mp he⟩

theorem get?_eq_of_perm (hm : m.names.Nodup) (h : m.entries.Perm n.entries) (name : String) :
    m.get? name = n.get? name := by
  have hn : n.names.Nodup := (h.map _).nodup_iff.mp hm
  apply Option.ext
  intro a
  rw [get?_eq_some_iff hm, get?_eq_some_iff hn, h.mem_iff]

end OrderedMap

namespace InstructionSet

open Schema (Record)

variable {mode : Mode} {records others : List Record} {s t : InstructionSet}

theorem checkStrict_eq_ok_iff : s.checkStrict = .ok () ↔ ∀ i ∈ s.values, i.checkStrict = .ok () := by
  simp only [checkStrict, Outcome.forM_eq_ok_iff, Outcome.mapError_eq_ok_iff]

theorem exists_ofRecords_perm_iff (h : records.Perm others) :
    (∃ s, ofRecords mode records = .ok s) ↔ ∃ t, ofRecords mode others = .ok t := by
  simp only [exists_ofRecords_iff, h.mem_iff, (h.map _).nodup_iff]

theorem values_perm (h : records.Perm others) {again : Mode} (hs : ofRecords mode records = .ok s)
    (ht : ofRecords again others = .ok t) : s.values.Perm t.values := by
  obtain ⟨is, hf, hp⟩ := List.perm_comp_forall₂ h.symm (forall₂_toInstruction hs)
  have hi := Outcome.mapM_eq_ok_iff.mpr hf
  rw [Outcome.mapM_eq_ok_iff.mpr (forall₂_toInstruction ht)] at hi
  cases hi
  exact hp.symm

/-- Loaded sets list the same entries, whatever the order, exactly when their records do. -/
theorem entries_perm_iff {again : Mode} (hs : ofRecords mode records = .ok s)
    (ht : ofRecords again others = .ok t) : s.entries.Perm t.entries ↔ records.Perm others := by
  constructor
  · intro h
    rw [← toRecords_of_ofRecords hs, ← toRecords_of_ofRecords ht]
    exact (h.map _).map _
  · intro h
    rw [← (valid_of_ofRecords hs).map_values, ← (valid_of_ofRecords ht).map_values]
    exact (values_perm h hs ht).map _

theorem sameEntries_iff {again : Mode} (hs : ofRecords mode records = .ok s)
    (ht : ofRecords again others = .ok t) : s.sameEntries t = true ↔ records.Perm others := by
  rw [OrderedMap.sameEntries_iff_perm (valid_of_ofRecords hs).nodup (valid_of_ofRecords ht).nodup,
    entries_perm_iff hs ht]

/-- A loaded set gives back the list of records that it was loaded from, and no other list
loads as this set, in either mode. When the order of a set is left aside, the lists that
load as it are the orders of this one. -/
theorem ofRecords_left_inverse (h : ofRecords mode records = .ok s) :
    s.toRecords = records ∧
      (∀ again others, ofRecords again others = .ok s → others = records) ∧
      ∀ again others t, ofRecords again others = .ok t →
        (s.sameEntries t = true ↔ records.Perm others) := by
  have hr := toRecords_of_ofRecords h
  refine ⟨hr, fun again others ho => ?_, fun again others t ht => sameEntries_iff h ht⟩
  rw [← hr, ← toRecords_of_ofRecords ho]

/-- Two records: an empty description beside none, and bounds with leading zeros. -/
def stored : List Record := [
  ⟨"add", "8bit", some "", [⟨"rd", "00-03", none⟩, ⟨"rs", "#,4-5", some "source"⟩]⟩,
  ⟨"ld", "16bit", none, [⟨"rs", "2-9", none⟩]⟩]

def kept : InstructionSet := ⟨[
  ("add", ⟨"add", some "", [⟨"rd", "00-03", none, [⟨0, .bits 0 3⟩]⟩,
    ⟨"rs", "#,4-5", some "source", [⟨2, .const 1 0⟩, ⟨0, .bits 4 5⟩]⟩], .bits8⟩),
  ("ld", ⟨"ld", none, [⟨"rs", "2-9", none, [⟨0, .bits 2 9⟩]⟩], .bits16⟩)]⟩

theorem ofRecords_left_inverse_sample :
    ofRecords .strict stored = .ok kept ∧ kept.toRecords = stored ∧
      ofRecords .lenient stored.reverse ≠ .ok kept := by
  have hs : ofRecords .strict stored = .ok kept := by decide +kernel
  obtain ⟨back, only, -⟩ := ofRecords_left_inverse hs
  exact ⟨hs, back, fun h => absurd (only .lenient stored.reverse h) (by decide)⟩

/-- Whether records load does not depend on their order. The sets of two orders have the
same entries, so the sets are equal but for the order of their instructions: they have the
same instruction under every name, with the same values in every word, and the strict check
passes on both or on neither. -/
theorem ofRecords_perm (h : records.Perm others) :
    ((∃ s, ofRecords mode records = .ok s) ↔ ∃ t, ofRecords mode others = .ok t) ∧
      ∀ s t, ofRecords mode records = .ok s → ofRecords mode others = .ok t →
        s.sameEntries t = true ∧ s.values.Perm t.values ∧
        (s.checkStrict = .ok () ↔ t.checkStrict = .ok ()) ∧
        (∀ name, s.get? name = t.get? name) ∧
        ∀ name w, (s.require name).map (·.decode w) = (t.require name).map (·.decode w) := by
  refine ⟨exists_ofRecords_perm_iff h, fun s t hs ht => ?_⟩
  have hv := values_perm h hs ht
  have hget : ∀ name, s.get? name = t.get? name :=
    OrderedMap.get?_eq_of_perm (valid_of_ofRecords hs).nodup ((entries_perm_iff hs ht).mpr h)
  refine ⟨(sameEntries_iff hs ht).mpr h, hv, ?_, hget, fun name w => ?_⟩
  · simp only [checkStrict_eq_ok_iff, hv.mem_iff]
  · rw [require, require, hget]

/-- The two records in either order, and two records whose order decides the error. -/
theorem ofRecords_perm_sample :
    let t : InstructionSet := ⟨kept.entries.reverse⟩
    let faulty : List Record := [⟨"add", "12bit", none, []⟩, ⟨"", "8bit", none, []⟩]
    stored.Perm stored.reverse ∧ ofRecords .strict stored = .ok kept ∧
      ofRecords .strict stored.reverse = .ok t ∧ kept ≠ t ∧ kept.sameEntries t = true ∧
      kept.get? "ld" = t.get? "ld" ∧
      ofRecords .strict faulty = .error (.encoding "add" (.unknownArchitecture "12bit")) ∧
      ofRecords .strict faulty.reverse = .error (.encoding "" .emptyName) := by
  intro t faulty
  have hp : stored.Perm stored.reverse := stored.reverse_perm.symm
  have hs : ofRecords .strict stored = .ok kept := by decide +kernel
  have ht : ofRecords .strict stored.reverse = .ok t := by decide +kernel
  obtain ⟨same, -, -, names, -⟩ := (ofRecords_perm hp).2 kept t hs ht
  exact ⟨hp, hs, ht, by decide, same, names "ld", by decide +kernel, by decide +kernel⟩

end InstructionSet

end BitLayout
