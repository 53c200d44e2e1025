import BitLayout.Parameter
import BitLayout.Proofs.Outcome

/-! # Accepted parameters

A parameter is accepted when its name and its source are not empty and its source
spells a layout. Whatever edits follow, it stays the parameter that its visible
parts describe.
-/

namespace BitLayout.Parameter

variable {name source : String} {description : Option String} {p : Parameter}

theorem layoutOf_eq_ok_iff {l : Layout} :
    layoutOf name source = .ok l ↔ source ≠ "" ∧ Layout.ofSource source = .ok l := by
  unfold layoutOf
  by_cases h : source = ""
  · simp [h]
  · rw [if_neg (by simpa using h)]
    exact (and_iff_right h).symm

theorem make_eq_ok_iff :
    make name source description = .ok p ↔ name ≠ "" ∧ source ≠ "" ∧
      Layout.ofSource source = .ok p.layout ∧ p.name = name ∧ p.source = source ∧
      p.description = description := by
  unfold make
  by_cases h : name = ""
  · simp [h]
  · rw [if_neg (by simpa using h), Outcome.map_eq_ok_iff]
    constructor
    · rintro ⟨l, hl, rfl⟩
      obtain ⟨hs, hl⟩ := layoutOf_eq_ok_iff.mp hl
      exact ⟨h, hs, hl, rfl, rfl, rfl⟩
    · rintro ⟨-, hs, hl, rfl, rfl, rfl⟩
      exact ⟨p.layout, layoutOf_eq_ok_iff.mpr ⟨hs, hl⟩, rfl⟩

theorem exists_make_iff : (∃ p, make name source description = .ok p) ↔
    name ≠ "" ∧ source ≠ "" ∧ ∃ l, Layout.ofSource source = .ok l := by
  constructor
  · rintro ⟨p, h⟩
    obtain ⟨hn, hs, hl, -⟩ := make_eq_ok_iff.mp h
    exact ⟨hn, hs, p.layout, hl⟩
  · rintro ⟨hn, hs, l, hl⟩
    exact ⟨⟨name, source, description, l⟩, make_eq_ok_iff.mpr ⟨hn, hs, hl, rfl, rfl, rfl⟩⟩

/-- What is wrong with the name of a parameter, or else with its source. -/
inductive Fault (name source : String) : EncodingError → Prop
  | emptyName : name = "" → Fault name source .emptyName
  | emptySource : name ≠ "" → source = "" → Fault name source (.emptySource name)
  | badSource {e : EncodingError} : name ≠ "" → source ≠ "" →
      Layout.ofSource source = .error e → Fault name source e

/-- The parameter is the one that its visible parts describe. -/
def Valid (p : Parameter) : Prop := make p.name p.source p.description = .ok p

instance (p : Parameter) : Decidable p.Valid :=
  inferInstanceAs (Decidable (make p.name p.source p.description = .ok p))

theorem valid_iff :
    p.Valid ↔ p.name ≠ "" ∧ p.source ≠ "" ∧ Layout.ofSource p.source = .ok p.layout := by
  simp [Valid, make_eq_ok_iff]

theorem valid_of_make (h : make name source description = .ok p) : p.Valid := by
  obtain ⟨-, -, -, rfl, rfl, rfl⟩ := make_eq_ok_iff.mp h
  exact h

theorem mapM_make {ps : List Parameter} (h : ∀ p ∈ ps, p.Valid) :
    (ps.mapM fun p => make p.name p.source p.description) = .ok ps :=
  Outcome.mapM_eq_ok_iff.mpr (List.forall₂_same.mpr h)

theorem Valid.eq_iff {q : Parameter} (hp : p.Valid) (hq : q.Valid) :
    p = q ↔ p.name = q.name ∧ p.source = q.source ∧ p.description = q.description := by
  constructor
  · rintro rfl
    exact ⟨rfl, rfl, rfl⟩
  · rintro ⟨hn, hs, hd⟩
    have hmake : make p.name p.source p.description = .ok q := by
      rw [hn, hs, hd]
      exact hq
    exact Except.ok.inj (hp.symm.trans hmake)

/-- A parameter that a building and any row of edits, refused ones included, leave behind. -/
inductive Reachable : Parameter → Prop
  | make {name source : String} {description : Option String} {p : Parameter} :
      Parameter.make name source description = .ok p → Reachable p
  | perform {p : Parameter} (e : Edit) : Reachable p → Reachable (p.perform e).1

theorem Valid.edit {e : Edit} {q : Parameter} (hp : p.Valid) (h : p.edit e = .ok q) :
    q.Valid := by
  rw [valid_iff] at hp ⊢
  obtain ⟨hn, hs, hl⟩ := hp
  cases e with
  | name name =>
    simp only [Parameter.edit] at h
    split at h
    · cases h
    · rename_i hne
      cases h
      exact ⟨by simpa using hne, hs, hl⟩
  | source source =>
    obtain ⟨l, hl', rfl⟩ := Outcome.map_eq_ok_iff.mp h
    obtain ⟨hs', hl'⟩ := layoutOf_eq_ok_iff.mp hl'
    exact ⟨hn, hs', hl'⟩
  | description description =>
    cases h
    exact ⟨hn, hs, hl⟩

theorem Valid.perform (hp : p.Valid) (e : Edit) : (p.perform e).1.Valid := by
  unfold Parameter.perform
  split
  · rename_i q h
    exact hp.edit h
  · exact hp

theorem Reachable.valid (h : p.Reachable) : p.Valid := by
  induction h with
  | make h => exact valid_of_make h
  | perform e _ ih => exact ih.perform e

/-- Whatever its history, a parameter can be built from its visible parts alone. -/
theorem reachable_iff_valid : p.Reachable ↔ p.Valid := ⟨Reachable.valid, .make⟩

end BitLayout.Parameter
