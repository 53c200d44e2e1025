import Mathlib.Data.List.Perm.Basic
import BitLayout.Proofs.Decoding
import BitLayout.Proofs.Pushing
import BitLayout.Proofs.Strict

/-! # Orders of parameters

The values of a word are listed in the order of the parameters, and each stands under the
name by which its parameter is found. Another order of the same parameters is accepted too.
It lists the same values in that order, finds each of them under the same name, and passes
the strict check when the first order does.
-/

namespace BitLayout.Instruction

variable {i : Instruction} {p : Parameter} {parameters : List Parameter} {name : String}

theorem Valid.parameter?_eq_some_iff (h : i.Valid) :
    i.parameter? name = some p ↔ p ∈ i.parameters ∧ p.name = name := by
  constructor
  · intro hp
    exact ⟨List.mem_of_find?_eq_some hp, by simpa using List.find?_some hp⟩
  · rintro ⟨hp, rfl⟩
    obtain ⟨q, hq⟩ := Option.isSome_iff_exists.mp
      (parameter?_isSome_iff.mpr (List.mem_map_of_mem hp))
    have same : q.name = p.name := by simpa using List.find?_some hq
    rw [hq, List.inj_on_of_nodup_map h.nodup (List.mem_of_find?_eq_some hq) hp same]

theorem Valid.nodup_decode (h : i.Valid) (w : Word) : (i.decode w).names.Nodup := by
  rw [OrderedMap.names, h.entries_decode, List.map_map]
  exact h.nodup

theorem Valid.get?_decode (h : i.Valid) (name : String) (w : Word) :
    (i.decode w).get? name = (i.parameter? name).map (·.value w) := by
  apply Option.ext
  intro v
  rw [OrderedMap.get?_eq_some_iff (h.nodup_decode w), h.entries_decode, Option.map_eq_some_iff]
  simp only [h.parameter?_eq_some_iff, List.mem_map, Prod.mk.injEq, and_assoc]

theorem Valid.reorder (h : i.Valid) (hp : parameters.Perm i.parameters) :
    Valid { i with parameters } where
  name_ne := h.name_ne
  nodup := (hp.map _).nodup_iff.mpr h.nodup
  parameters p hm := h.parameters p (hp.mem_iff.mp hm)

theorem Valid.parameter?_reorder (h : i.Valid) (hp : parameters.Perm i.parameters)
    (name : String) : parameter? { i with parameters } name = i.parameter? name := by
  apply Option.ext
  intro p
  rw [(h.reorder hp).parameter?_eq_some_iff, h.parameter?_eq_some_iff, hp.mem_iff]

theorem checkStrict_reorder (hp : parameters.Perm i.parameters) :
    checkStrict { i with parameters } = .ok () ↔ i.checkStrict = .ok () := by
  simp only [checkStrict_eq_ok_iff, strictFault?, List.findSome?_eq_none_iff, hp.mem_iff]

/-- Decoding lists the value of every parameter once, in the order of the parameters, under
the name by which the parameter is found. Setting the same parameters in another order
succeeds. It reorders the list, keeps the value of every name, and does not change whether
the strict check passes. -/
theorem decode_outcome (h : i.Reachable) :
    (∀ w, (i.decode w).entries = i.parameters.map (fun p => (p.name, p.value w)) ∧
      (i.decode w).names.Nodup ∧
      ∀ name, (i.decode w).get? name = (i.parameter? name).map (·.value w)) ∧
    (∀ name p, i.parameter? name = some p ↔ p ∈ i.parameters ∧ p.name = name) ∧
    ∀ parameters : List Parameter, parameters.Perm i.parameters →
      ∃ k, i.perform (.parameters parameters) = (k, .ok ()) ∧ k = { i with parameters } ∧
        (∀ w, (k.decode w).entries = parameters.map (fun p => (p.name, p.value w)) ∧
          (k.decode w).entries.Perm (i.decode w).entries ∧
          ∀ name, (k.decode w).get? name = (i.decode w).get? name) ∧
        (k.checkStrict = .ok () ↔ i.checkStrict = .ok ()) := by
  have hv := h.valid
  refine ⟨fun w => ⟨hv.entries_decode w, hv.nodup_decode w, fun name => hv.get?_decode name w⟩,
    fun name p => hv.parameter?_eq_some_iff, fun parameters hp => ?_⟩
  have hk := hv.reorder hp
  refine ⟨_, ?_, rfl, fun w => ⟨hk.entries_decode w, ?_, fun name => ?_⟩,
    checkStrict_reorder hp⟩
  · rw [perform, edit_parameters_eq_ok_iff.mpr ⟨hk.nodup, rfl⟩]
  · rw [hk.entries_decode, hv.entries_decode]
    exact hp.map _
  · rw [hk.get?_decode, hv.get?_decode, hv.parameter?_reorder hp]

theorem decode_outcome_sample :
    let i : Instruction := ⟨"add", none, [lower, upper], .bits8⟩
    let k : Instruction := ⟨"add", none, [upper, lower], .bits8⟩
    i.Reachable ∧ [upper, lower].Perm i.parameters ∧
      (i.decode 0xa5).entries = [("rd", 0x5), ("rs", 0xa)] ∧
      i.perform (.parameters [upper, lower]) = (k, .ok ()) ∧
      (k.decode 0xa5).entries = [("rs", 0xa), ("rd", 0x5)] ∧
      (k.decode 0xa5).get? "rs" = (i.decode 0xa5).get? "rs" ∧
      (k.checkStrict = .ok () ↔ i.checkStrict = .ok ()) := by
  intro i k
  have hi : i.Reachable := reachable_iff_valid.mpr ⟨by decide, by decide, by decide +kernel⟩
  have hp : [upper, lower].Perm i.parameters := .swap lower upper []
  obtain ⟨decoded, -, orders⟩ := decode_outcome hi
  obtain ⟨_, hset, rfl, reordered, strict⟩ := orders [upper, lower] hp
  obtain ⟨hentries, -, hname⟩ := reordered 0xa5
  exact ⟨hi, hp, (decoded 0xa5).1.trans (by decide +kernel), hset,
    hentries.trans (by decide +kernel), hname "rs", strict⟩

end BitLayout.Instruction
