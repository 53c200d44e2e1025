import Mathlib.Data.List.Nodup
import BitLayout.Instruction
import BitLayout.Proofs.Parameter

/-! # Accepted instructions

An instruction has a name, and parameters that are accepted and differ in name.
Every row of edits keeps it so, whether the edits are made or refused.
-/

namespace BitLayout.Instruction

variable {name tag : String} {description : Option String} {parameters : List Parameter}
  {i : Instruction}

/-- The name is not empty, and the parameters are accepted and differ in name. -/
structure Valid (i : Instruction) : Prop where
  name_ne : i.name ≠ ""
  nodup : (i.parameters.map (·.name)).Nodup
  parameters : ∀ p ∈ i.parameters, p.Valid

theorem repeatedAfter?_eq_some_iff {seen names : List String} :
    repeatedAfter? seen names = some name ↔ ∃ before after, names = before ++ name :: after ∧
      repeatedAfter? seen before = none ∧ (name ∈ before ∨ name ∈ seen) := by
  -- a name that is passed over moves from the names to come to those seen
  induction names generalizing seen with
  | nil => simp [repeatedAfter?]
  | cons m rest ih =>
    rw [repeatedAfter?]
    split
    · rename_i hm
      constructor
      · rintro ⟨⟩
        exact ⟨[], rest, rfl, rfl, Or.inr hm⟩
      · rintro ⟨before, after, h, hb, -⟩
        cases before with
        | nil =>
          cases h
          rfl
        | cons b before =>
          cases h
          simp [repeatedAfter?, hm] at hb
    · rename_i hm
      rw [ih]
      constructor
      · rintro ⟨before, after, rfl, hb, hn⟩
        refine ⟨m :: before, after, rfl, ?_, ?_⟩
        · rwa [repeatedAfter?, if_neg hm]
        · simpa [or_left_comm, or_assoc] using hn
      · rintro ⟨before, after, h, hb, hn⟩
        cases before with
        | nil =>
          cases h
          exact absurd hn (by simpa using hm)
        | cons b before =>
          cases h
          rw [repeatedAfter?, if_neg hm] at hb
          exact ⟨before, after, rfl, hb, by simpa [or_left_comm, or_assoc] using hn⟩

/-- The first name that one before it equals. -/
def FirstRepeated (names : List String) (name : String) : Prop :=
  ∃ before after, names = before ++ name :: after ∧ before.Nodup ∧ name ∈ before

theorem repeated?_eq_some_iff {names : List String} :
    repeated? names = some name ↔ FirstRepeated names name := by
  have hn (before : List String) : repeatedAfter? [] before = none ↔ before.Nodup :=
    repeated?_eq_none_iff
  simp only [repeated?, repeatedAfter?_eq_some_iff, hn, List.not_mem_nil, or_false, FirstRepeated]

theorem distinct_eq_ok_iff {ps : List Parameter} :
    distinct parameters = .ok ps ↔ (parameters.map (·.name)).Nodup ∧ ps = parameters := by
  unfold distinct
  rw [← repeated?_eq_none_iff]
  cases repeated? (parameters.map (·.name)) with
  | none => simp [eq_comm]
  | some n => simp

theorem distinct_eq_error_iff {e : EncodingError} :
    distinct parameters = .error e ↔
      ∃ name, FirstRepeated (parameters.map (·.name)) name ∧ e = .repeatedParameter name := by
  unfold distinct
  simp only [← repeated?_eq_some_iff]
  cases repeated? (parameters.map (·.name)) with
  | none => simp
  | some n => simp [eq_comm]

theorem make_eq_ok_iff :
    make name description parameters tag = .ok i ↔ name ≠ "" ∧
      (parameters.map (·.name)).Nodup ∧ Architecture.ofTag tag = .ok i.architecture ∧
      i.name = name ∧ i.description = description ∧ i.parameters = parameters := by
  unfold make
  rw [Outcome.bind_eq_ok_iff]
  by_cases h : name = ""
  · simp [h]
  · simp only [if_neg (show ¬ name.isEmpty = true by simpa using h), Outcome.bind_eq_ok_iff,
      distinct_eq_ok_iff]
    constructor
    · rintro ⟨a, ha, ps, ⟨hn, rfl⟩, hi⟩
      cases hi
      exact ⟨h, hn, ha, rfl, rfl, rfl⟩
    · rintro ⟨-, hn, ha, rfl, rfl, rfl⟩
      exact ⟨i.architecture, ha, i.parameters, ⟨hn, rfl⟩, rfl⟩

/-- What is wrong with the architecture of an instruction, or else with its name, or else
with the names of its parameters. -/
inductive Fault (name : String) (parameters : List String) (tag : String) : EncodingError → Prop
  | unknownArchitecture : (∀ a : Architecture, a.tag ≠ tag) →
      Fault name parameters tag (.unknownArchitecture tag)
  | emptyName {a : Architecture} : a.tag = tag → name = "" → Fault name parameters tag .emptyName
  | repeatedParameter {a : Architecture} {parameter : String} : a.tag = tag → name ≠ "" →
      FirstRepeated parameters parameter →
      Fault name parameters tag (.repeatedParameter parameter)

theorem exists_make_iff : (∃ i, make name description parameters tag = .ok i) ↔
    name ≠ "" ∧ (parameters.map (·.name)).Nodup ∧ ∃ a : Architecture, a.tag = tag := by
  simp only [make_eq_ok_iff, Architecture.ofTag_eq_ok_iff]
  constructor
  · rintro ⟨i, hn, hd, ha, -⟩
    exact ⟨hn, hd, i.architecture, ha⟩
  · rintro ⟨hn, hd, a, ha⟩
    exact ⟨⟨name, description, parameters, a⟩, hn, hd, ha, rfl, rfl, rfl⟩

theorem valid_of_make (h : make name description parameters tag = .ok i)
    (hp : ∀ p ∈ parameters, p.Valid) : i.Valid := by
  obtain ⟨hne, hn, -, rfl, rfl, rfl⟩ := make_eq_ok_iff.mp h
  exact ⟨hne, hn, hp⟩

theorem Valid.make_eq (h : i.Valid) :
    make i.name i.description i.parameters i.architecture.tag = .ok i :=
  make_eq_ok_iff.mpr
    ⟨h.name_ne, h.nodup, Architecture.ofTag_eq_ok_iff.mpr rfl, rfl, rfl, rfl⟩

def Edit.incoming : Edit → List Parameter
  | .parameters parameters => parameters
  | .push parameter => [parameter]
  | _ => []

/-- An instruction that a building and any row of edits, refused ones included, leave behind. -/
inductive Reachable : Instruction → Prop
  | make {name tag : String} {description : Option String} {parameters : List Parameter}
      {i : Instruction} : (∀ p ∈ parameters, p.Reachable) →
      Instruction.make name description parameters tag = .ok i → Reachable i
  | perform {i : Instruction} (e : Edit) : (∀ p ∈ e.incoming, p.Reachable) → Reachable i →
      Reachable (i.perform e).1

theorem parameter?_isSome_iff : (i.parameter? name).isSome = true ↔
    name ∈ i.parameters.map (·.name) := by
  simp [parameter?, List.find?_isSome]

theorem Valid.edit {e : Edit} {k : Instruction} (hi : i.Valid)
    (hp : ∀ p ∈ e.incoming, p.Valid) (h : i.edit e = .ok k) : k.Valid := by
  cases e with
  | name name =>
    simp only [Instruction.edit] at h
    split at h
    · cases h
    · rename_i hne
      cases h
      exact ⟨by simpa using hne, hi.nodup, hi.parameters⟩
  | description description =>
    cases h
    exact ⟨hi.name_ne, hi.nodup, hi.parameters⟩
  | architecture tag =>
    obtain ⟨a, -, rfl⟩ := Outcome.map_eq_ok_iff.mp h
    exact ⟨hi.name_ne, hi.nodup, hi.parameters⟩
  | parameters ps =>
    obtain ⟨qs, hq, rfl⟩ := Outcome.map_eq_ok_iff.mp h
    obtain ⟨hn, rfl⟩ := distinct_eq_ok_iff.mp hq
    exact ⟨hi.name_ne, hn, hp⟩
  | push p =>
    simp only [Instruction.edit] at h
    split at h
    · cases h
    · rename_i hn
      cases h
      rw [parameter?_isSome_iff] at hn
      refine ⟨hi.name_ne, ?_, ?_⟩
      · rw [List.map_append, List.map_singleton, ← List.concat_eq_append]
        exact hi.nodup.concat hn
      · intro q hq
        rcases List.mem_append.mp hq with hq | hq
        · exact hi.parameters q hq
        · exact hp q hq

theorem Valid.perform {e : Edit} (hi : i.Valid) (hp : ∀ p ∈ e.incoming, p.Valid) :
    (i.perform e).1.Valid := by
  unfold Instruction.perform
  split
  · rename_i k h
    exact hi.edit hp h
  · exact hi

theorem Reachable.valid (h : i.Reachable) : i.Valid := by
  induction h with
  | make hp h => exact valid_of_make h fun p hm => (hp p hm).valid
  | perform e hp _ ih => exact ih.perform fun p hm => (hp p hm).valid

/-- Whatever its history, an instruction can be built from its visible parts alone. -/
theorem reachable_iff_valid : i.Reachable ↔ i.Valid := by
  refine ⟨Reachable.valid, fun h => .make (fun p hp => ?_) h.make_eq⟩
  exact Parameter.reachable_iff_valid.mpr (h.parameters p hp)

end BitLayout.Instruction
