import Mathlib.Data.List.Induction
import BitLayout.Proofs.Instruction

/-! # Pushing parameters

Pushing a parameter looks its name up among those that are there; setting all parameters
goes through their names once. Both refuse the same parameters with the same error, so a
row of parameters may be pushed one after the other in place of giving it at once.
-/

namespace BitLayout.Instruction

def pushAll (i : Instruction) (parameters : List Parameter) : Except EncodingError Instruction :=
  parameters.foldlM (fun i p => i.edit (.push p)) i

/-- The first parameter that has the name of one before it. -/
def FirstRepeatedParameter (parameters : List Parameter) (p : Parameter) : Prop :=
  ∃ before after, parameters = before ++ p :: after ∧ (before.map (·.name)).Nodup ∧
    p.name ∈ before.map (·.name)

variable {i k : Instruction} {p : Parameter} {parameters : List Parameter}
  {name : String} {e : EncodingError}

theorem FirstRepeatedParameter.append (h : FirstRepeatedParameter parameters p)
    (more : List Parameter) : FirstRepeatedParameter (parameters ++ more) p := by
  obtain ⟨before, after, rfl, hn, hm⟩ := h
  exact ⟨before, after ++ more, by simp, hn, hm⟩

theorem firstRepeated_map_iff : FirstRepeated (parameters.map (·.name)) name ↔
    ∃ p, FirstRepeatedParameter parameters p ∧ p.name = name := by
  constructor
  · rintro ⟨names, later, he, hn, hm⟩
    obtain ⟨before, rest, rfl, rfl, hrest⟩ := List.map_eq_append_iff.mp he
    obtain ⟨p, after, rfl, rfl, -⟩ := List.map_eq_cons_iff.mp hrest
    exact ⟨p, ⟨before, after, rfl, hn, hm⟩, rfl⟩
  · rintro ⟨p, ⟨before, after, rfl, hn, hm⟩, rfl⟩
    exact ⟨before.map (·.name), after.map (·.name), by simp, hn, hm⟩

theorem edit_parameters_eq_ok_iff : i.edit (.parameters parameters) = .ok k ↔
    (parameters.map (·.name)).Nodup ∧ k = { i with parameters } := by
  simp only [edit, Outcome.map_eq_ok_iff, distinct_eq_ok_iff]
  constructor
  · rintro ⟨_, ⟨hn, rfl⟩, rfl⟩
    exact ⟨hn, rfl⟩
  · rintro ⟨hn, rfl⟩
    exact ⟨parameters, ⟨hn, rfl⟩, rfl⟩

theorem edit_parameters_eq_error_iff : i.edit (.parameters parameters) = .error e ↔
    ∃ p, FirstRepeatedParameter parameters p ∧ e = .repeatedParameter p.name := by
  simp only [edit, Outcome.map_eq_error_iff, distinct_eq_error_iff, firstRepeated_map_iff]
  constructor
  · rintro ⟨_, ⟨p, hp, rfl⟩, rfl⟩
    exact ⟨p, hp, rfl⟩
  · rintro ⟨p, hp, rfl⟩
    exact ⟨_, ⟨p, hp, rfl⟩, rfl⟩

theorem edit_push_eq_ok_iff : i.edit (.push p) = .ok k ↔
    p.name ∉ i.parameters.map (·.name) ∧ k = { i with parameters := i.parameters ++ [p] } := by
  rw [edit, ← parameter?_isSome_iff]
  split <;> simp [*, eq_comm]

theorem edit_push_eq_error_iff : i.edit (.push p) = .error e ↔
    p.name ∈ i.parameters.map (·.name) ∧ e = .repeatedParameter p.name := by
  rw [edit, ← parameter?_isSome_iff]
  split <;> simp [*, eq_comm]

theorem nodup_concat_iff : ((parameters ++ [p]).map (·.name)).Nodup ↔
    (parameters.map (·.name)).Nodup ∧ p.name ∉ parameters.map (·.name) := by
  rw [List.map_append, List.map_singleton, List.nodup_append_comm, List.singleton_append,
    List.nodup_cons, and_comm]

theorem edit_push_eq_edit_parameters (hn : (i.parameters.map (·.name)).Nodup) (p : Parameter) :
    i.edit (.push p) = i.edit (.parameters (i.parameters ++ [p])) := by
  symm
  cases h : i.edit (.push p) with
  | ok k =>
    obtain ⟨fresh, rfl⟩ := edit_push_eq_ok_iff.mp h
    exact edit_parameters_eq_ok_iff.mpr ⟨nodup_concat_iff.mpr ⟨hn, fresh⟩, rfl⟩
  | error e =>
    obtain ⟨taken, rfl⟩ := edit_push_eq_error_iff.mp h
    exact edit_parameters_eq_error_iff.mpr ⟨p, ⟨_, [], rfl, hn, taken⟩, rfl⟩

theorem pushAll_eq_edit_parameters (hn : (i.parameters.map (·.name)).Nodup)
    (parameters : List Parameter) :
    i.pushAll parameters = i.edit (.parameters (i.parameters ++ parameters)) := by
  -- what has been pushed before the last parameter is set already, or has failed for good
  induction parameters using List.reverseRecOn with
  | nil =>
    symm
    rw [List.append_nil]
    exact edit_parameters_eq_ok_iff.mpr ⟨hn, rfl⟩
  | append_singleton parameters p ih =>
    rw [pushAll] at ih ⊢
    rw [List.foldlM_append, ih, ← List.append_assoc]
    cases h : i.edit (.parameters (i.parameters ++ parameters)) with
    | ok k =>
      obtain ⟨hk, rfl⟩ := edit_parameters_eq_ok_iff.mp h
      rw [Outcome.ok_bind, List.foldlM_cons, edit_push_eq_edit_parameters hk]
      exact bind_pure _
    | error e =>
      obtain ⟨q, hq, rfl⟩ := edit_parameters_eq_error_iff.mp h
      rw [Outcome.error_bind]
      symm
      exact edit_parameters_eq_error_iff.mpr ⟨q, hq.append [p], rfl⟩

/-- Building an instruction goes through the parameters as setting them does. -/
theorem make_tag_eq (hn : name ≠ "") (description : Option String) (a : Architecture) :
    make name description parameters a.tag =
      edit ⟨name, description, [], a⟩ (.parameters parameters) := by
  rw [make, Architecture.ofTag_eq_ok_iff.mpr rfl, Outcome.ok_bind, if_neg (by simpa using hn), edit]
  cases distinct parameters <;> rfl

/-- Pushing a parameter onto an instruction has the outcome of setting all its parameters
with the new one behind them. Building an instruction with parameters has the outcome of
building it without any and pushing them one after the other, and fails over the first of
them that has the name of one before it. -/
theorem push_outcome :
    (∀ i : Instruction, i.Reachable → ∀ p : Parameter,
      i.perform (.push p) = i.perform (.parameters (i.parameters ++ [p])) ∧
      (p.name ∉ i.parameters.map (·.name) →
        i.perform (.push p) = ({ i with parameters := i.parameters ++ [p] }, .ok ())) ∧
      (p.name ∈ i.parameters.map (·.name) →
        i.perform (.push p) = (i, .error (.repeatedParameter p.name)))) ∧
    ∀ name description parameters tag, name ≠ "" → (∃ a : Architecture, a.tag = tag) →
      ∃ bare, make name description [] tag = .ok bare ∧
        make name description parameters tag = bare.pushAll parameters ∧
        (∀ i, make name description parameters tag = .ok i ↔
          (parameters.map (·.name)).Nodup ∧ i = { bare with parameters }) ∧
        ∀ e, make name description parameters tag = .error e ↔
          ∃ p, FirstRepeatedParameter parameters p ∧ e = .repeatedParameter p.name := by
  constructor
  · intro i h p
    refine ⟨?_, fun fresh => ?_, fun taken => ?_⟩
    · rw [perform, perform, edit_push_eq_edit_parameters h.valid.nodup]
    · rw [perform, edit_push_eq_ok_iff.mpr ⟨fresh, rfl⟩]
    · rw [perform, edit_push_eq_error_iff.mpr ⟨taken, rfl⟩]
  · rintro name description parameters _ hn ⟨a, rfl⟩
    refine ⟨⟨name, description, [], a⟩, ?_, ?_, fun i => ?_, fun e => ?_⟩
    · rw [make_tag_eq hn]
      exact edit_parameters_eq_ok_iff.mpr ⟨List.nodup_nil, rfl⟩
    · have none : ((⟨name, description, [], a⟩ : Instruction).parameters.map (·.name)).Nodup :=
        List.nodup_nil
      rw [make_tag_eq hn, pushAll_eq_edit_parameters none, List.nil_append]
    · rw [make_tag_eq hn, edit_parameters_eq_ok_iff]
    · rw [make_tag_eq hn, edit_parameters_eq_error_iff]

def lower : Parameter := ⟨"rd", "0-3", none, [⟨0, .bits 0 3⟩]⟩

def upper : Parameter := ⟨"rs", "4-7", none, [⟨0, .bits 4 7⟩]⟩

/-- A parameter that has the name of the lower half. -/
def renamed : Parameter := ⟨"rd", "+#", none, [⟨0, .const 2 2⟩]⟩

/-- The name of the third of four parameters is reported, though the fourth repeats one too. -/
theorem push_outcome_sample :
    let i : Instruction := ⟨"add", none, [lower, upper], .bits8⟩
    let bare : Instruction := ⟨"add", none, [], .bits8⟩
    i.Reachable ∧
      i.perform (.parameters [lower, upper, renamed]) =
        (i, .error (.repeatedParameter "rd")) ∧
      bare.pushAll [lower, upper, renamed, upper] = .error (.repeatedParameter "rd") ∧
      make "add" none [lower, upper, renamed, upper] "8bit" =
        .error (.repeatedParameter "rd") := by
  intro i bare
  have hi : i.Reachable := reachable_iff_valid.mpr ⟨by decide, by decide, by decide +kernel⟩
  obtain ⟨pushed, built⟩ := push_outcome
  obtain ⟨same, -, taken⟩ := pushed i hi renamed
  obtain ⟨start, hstart, hpush, -, hfault⟩ :=
    built "add" none [lower, upper, renamed, upper] "8bit" (by decide) ⟨.bits8, rfl⟩
  obtain rfl : bare = start := Except.ok.inj (Eq.trans (by rfl) hstart)
  have refused := (hfault (.repeatedParameter "rd")).mpr
    ⟨renamed, ⟨[lower, upper], [upper], rfl, by decide, by decide⟩, rfl⟩
  exact ⟨hi, same.symm.trans (taken (by decide)), hpush.symm.trans refused, refused⟩

end BitLayout.Instruction
