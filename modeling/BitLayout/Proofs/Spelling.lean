import BitLayout.InstructionSet
import BitLayout.Proofs.Record

/-! # Spellings of records

A value spells a record as an object, in which each part of the record stands under its key
once, or as the array of its parts. The members of an object may come in any order, and
those with other keys say nothing. A document spells a list of records, or one record by
itself; no value does both.
-/

namespace BitLayout.Schema

variable {members others : List (String × Json)} {key : String} {v : Json}

/-- Exactly one member has the key, and it has this value. -/
def Once (members : List (String × Json)) (key : String) (v : Json) : Prop :=
  (members.map (·.1)).count key = 1 ∧ (key, v) ∈ members

inductive SpellsDescription : Json → Option String → Prop
  | none : SpellsDescription .null none
  | some (text : String) : SpellsDescription (.string text) (some text)

/-- The description of an object has no member, or exactly one that spells it. -/
inductive DescribedBy (members : List (String × Json)) : Option String → Prop
  | absent : "description" ∉ members.map (·.1) → DescribedBy members none
  | present {v : Json} {description : Option String} : Once members "description" v →
      SpellsDescription v description → DescribedBy members description

/-- The value is the object of a parameter, or the array of its parts, in which the
description may be left out. -/
inductive ParameterRecord.Spells : Json → ParameterRecord → Prop
  | object {members : List (String × Json)} {name source : String} {description : Option String} :
      Once members "name" (.string name) → Once members "source" (.string source) →
      DescribedBy members description → Spells (.object members) ⟨name, source, description⟩
  | two (name source : String) :
      Spells (.array [.string name, .string source]) ⟨name, source, none⟩
  | three (name source : String) {v : Json} {description : Option String} :
      SpellsDescription v description →
      Spells (.array [.string name, .string source, v]) ⟨name, source, description⟩

inductive Record.Spells : Json → Record → Prop
  | object {members : List (String × Json)} {items : List Json} {name architecture : String}
      {description : Option String} {parameters : List ParameterRecord} :
      Once members "name" (.string name) → Once members "architecture" (.string architecture) →
      DescribedBy members description → Once members "parameters" (.array items) →
      List.Forall₂ ParameterRecord.Spells items parameters →
      Spells (.object members) ⟨name, architecture, description, parameters⟩
  | array (name architecture : String) {v : Json} {items : List Json}
      {description : Option String} {parameters : List ParameterRecord} :
      SpellsDescription v description → List.Forall₂ ParameterRecord.Spells items parameters →
      Spells (.array [.string name, .string architecture, v, .array items])
        ⟨name, architecture, description, parameters⟩

/-- The value is a list of values that each spell a record, or spells one record itself. -/
inductive SpellsDocument : Json → List Record → Prop
  | list {items : List Json} {records : List Record} :
      List.Forall₂ Record.Spells items records → SpellsDocument (.array items) records
  | single {v : Json} {r : Record} : Record.Spells v r → SpellsDocument v [r]

theorem once_iff_filter : Once members key v ↔ members.filter (·.1 == key) = [(key, v)] := by
  have hcount : (members.map (·.1)).count key = (members.filter (·.1 == key)).length := by
    rw [List.count, List.countP_map, List.countP_eq_length_filter]
    rfl
  rw [Once, hcount, List.length_eq_one_iff]
  constructor
  · rintro ⟨⟨m, hm⟩, hv⟩
    have hmem : (key, v) ∈ members.filter (·.1 == key) := List.mem_filter.mpr ⟨hv, by simp⟩
    rw [hm, List.mem_singleton] at hmem
    rw [hm, hmem]
  · intro h
    have hmem : (key, v) ∈ members.filter (·.1 == key) := h ▸ List.mem_singleton.mpr rfl
    exact ⟨⟨_, h⟩, (List.mem_filter.mp hmem).1⟩

theorem not_mem_iff_filter : key ∉ members.map (·.1) ↔ members.filter (·.1 == key) = [] := by
  simp only [List.filter_eq_nil_iff, List.mem_map, beq_iff_eq, not_exists, not_and]

theorem member?_eq_some_none_iff : member? members key = some none ↔ key ∉ members.map (·.1) := by
  rw [not_mem_iff_filter, member?]
  split <;> simp [*]

theorem member?_eq_some_some_iff : member? members key = some (some v) ↔ Once members key v := by
  rw [once_iff_filter, member?]
  split
  · simp [*]
  · rename_i m hm
    have hkey : m.1 = key := by
      have hmem : m ∈ members.filter (·.1 == key) := hm ▸ List.mem_singleton.mpr rfl
      simpa using (List.mem_filter.mp hmem).2
    rw [hm, ← hkey]
    simp [Prod.ext_iff]
  · simp [*]

theorem required?_eq_some_iff : required? members key = some v ↔ Once members key v := by
  rw [required?, Option.join_eq_some_iff, member?_eq_some_some_iff]

theorem textOf?_eq_some_iff {s : String} : textOf? v = some s ↔ v = .string s := by
  cases v <;> simp [textOf?]

theorem descriptionOf?_eq_some_iff {d : Option String} :
    descriptionOf? v = some d ↔ SpellsDescription v d := by
  constructor
  · intro h
    unfold descriptionOf? at h
    split at h <;> cases h <;> constructor
  · intro h
    cases h <;> rfl

theorem memberDescription?_eq_some_iff {d : Option String} :
    memberDescription? members = some d ↔ DescribedBy members d := by
  simp only [memberDescription?, Option.bind_eq_bind, Option.bind_eq_some_iff]
  constructor
  · rintro ⟨m, hm, h⟩
    cases m with
    | none =>
      cases h
      exact .absent (member?_eq_some_none_iff.mp hm)
    | some u => exact .present (member?_eq_some_some_iff.mp hm) (descriptionOf?_eq_some_iff.mp h)
  · intro h
    cases h with
    | absent ha => exact ⟨none, member?_eq_some_none_iff.mpr ha, rfl⟩
    | @present u _ ho hd =>
      exact ⟨some u, member?_eq_some_some_iff.mpr ho, descriptionOf?_eq_some_iff.mpr hd⟩

theorem ParameterRecord.ofJson?_eq_some_iff {r : ParameterRecord} :
    ofJson? v = some r ↔ Spells v r := by
  constructor
  · intro h
    unfold ofJson? at h
    split at h
    · simp only [Option.bind_eq_bind, Option.bind_eq_some_iff, required?_eq_some_iff,
        textOf?_eq_some_iff, memberDescription?_eq_some_iff] at h
      obtain ⟨_, hn, name, rfl, _, hs, source, rfl, description, hd, h⟩ := h
      cases h
      exact .object hn hs hd
    · simp only [Option.bind_eq_bind, Option.bind_eq_some_iff, textOf?_eq_some_iff] at h
      obtain ⟨name, rfl, source, rfl, h⟩ := h
      cases h
      exact .two name source
    · simp only [Option.bind_eq_bind, Option.bind_eq_some_iff, textOf?_eq_some_iff,
        descriptionOf?_eq_some_iff] at h
      obtain ⟨name, rfl, source, rfl, description, hd, h⟩ := h
      cases h
      exact .three name source hd
    · cases h
  · intro h
    cases h with
    | object hn hs hd =>
      simp only [ofJson?, required?_eq_some_iff.mpr hn, required?_eq_some_iff.mpr hs,
        memberDescription?_eq_some_iff.mpr hd]
      rfl
    | two => rfl
    | three name source hd =>
      simp only [ofJson?, descriptionOf?_eq_some_iff.mpr hd]
      rfl

theorem parametersOf?_eq_some_iff {rs : List ParameterRecord} : parametersOf? v = some rs ↔
    ∃ items, v = .array items ∧ List.Forall₂ ParameterRecord.Spells items rs := by
  cases v <;> simp [parametersOf?, Outcome.mapM_eq_some_iff ParameterRecord.ofJson?_eq_some_iff]

theorem Record.ofJson?_eq_some_iff {r : Record} : ofJson? v = some r ↔ Spells v r := by
  constructor
  · intro h
    unfold ofJson? at h
    split at h
    · simp only [Option.bind_eq_bind, Option.bind_eq_some_iff, required?_eq_some_iff,
        textOf?_eq_some_iff, memberDescription?_eq_some_iff, parametersOf?_eq_some_iff] at h
      obtain ⟨_, hn, name, rfl, _, ha, architecture, rfl, description, hd, _, hp, parameters,
        ⟨items, rfl, hi⟩, h⟩ := h
      cases h
      exact .object hn ha hd hp hi
    · simp only [Option.bind_eq_bind, Option.bind_eq_some_iff, textOf?_eq_some_iff,
        descriptionOf?_eq_some_iff, parametersOf?_eq_some_iff] at h
      obtain ⟨name, rfl, architecture, rfl, description, hd, parameters, ⟨items, rfl, hi⟩, h⟩ := h
      cases h
      exact .array name architecture hd hi
    · cases h
  · intro h
    cases h with
    | object hn ha hd hp hi =>
      simp only [ofJson?, required?_eq_some_iff.mpr hn, required?_eq_some_iff.mpr ha,
        memberDescription?_eq_some_iff.mpr hd, required?_eq_some_iff.mpr hp,
        Option.bind_eq_bind, Option.bind_some, parametersOf?_eq_some_iff.mpr ⟨_, rfl, hi⟩]
      rfl
    | array name architecture hd hi =>
      simp only [ofJson?, descriptionOf?_eq_some_iff.mpr hd,
        parametersOf?_eq_some_iff.mpr ⟨_, rfl, hi⟩]
      rfl

theorem recordsOf?_eq_some_iff {rs : List Record} : recordsOf? v = some rs ↔
    ∃ items, v = .array items ∧ List.Forall₂ Record.Spells items rs := by
  cases v <;> simp [recordsOf?, Outcome.mapM_eq_some_iff Record.ofJson?_eq_some_iff]

/-- A list of spelled records is not itself the array of a record, which begins with a text. -/
theorem not_spells_of_forall₂ {items : List Json} {rs : List Record} {r : Record}
    (h : List.Forall₂ Record.Spells items rs) : ¬ Record.Spells (.array items) r := by
  intro hr
  cases hr with
  | array name =>
    cases h with
    | cons hname => cases hname

theorem recordsOf?_eq_none {r : Record} (h : Record.Spells v r) : recordsOf? v = none := by
  cases hr : recordsOf? v with
  | none => rfl
  | some rs =>
    obtain ⟨items, rfl, hi⟩ := recordsOf?_eq_some_iff.mp hr
    exact absurd h (not_spells_of_forall₂ hi)

theorem documentOf?_eq_some_iff {rs : List Record} :
    documentOf? v = some rs ↔ SpellsDocument v rs := by
  rw [documentOf?, Option.or_eq_some_iff, Option.map_eq_some_iff, recordsOf?_eq_some_iff]
  constructor
  · rintro (⟨items, rfl, hi⟩ | ⟨-, r, hr, rfl⟩)
    · exact .list hi
    · exact .single (Record.ofJson?_eq_some_iff.mp hr)
  · intro h
    cases h with
    | list hi => exact .inl ⟨_, rfl, hi⟩
    | single hr => exact .inr ⟨recordsOf?_eq_none hr, _, Record.ofJson?_eq_some_iff.mpr hr, rfl⟩

def ParameterRecord.keys : List String := ["name", "source", "description"]

def Record.keys : List String := ["name", "architecture", "description", "parameters"]

def known (keys : List String) (members : List (String × Json)) : List (String × Json) :=
  members.filter fun m => decide (m.1 ∈ keys)

/-- What stands under a known key is the same when the known members are, in any order. -/
theorem member?_eq_of_known {keys : List String} (hk : key ∈ keys)
    (h : (known keys members).Perm (known keys others)) :
    member? members key = member? others key := by
  have hfilter : ∀ ms : List (String × Json),
      ms.filter (·.1 == key) = (known keys ms).filter (·.1 == key) := by
    intro ms
    rw [known, List.filter_filter]
    refine List.filter_congr fun m _ => ?_
    by_cases hm : m.1 = key
    · simp [hm, hk]
    · simp [hm]
  have hperm : (members.filter (·.1 == key)).Perm (others.filter (·.1 == key)) := by
    rw [hfilter members, hfilter others]
    exact h.filter _
  apply Option.ext
  intro o
  cases o with
  | none =>
    rw [member?_eq_some_none_iff, member?_eq_some_none_iff, not_mem_iff_filter, not_mem_iff_filter,
      ← List.perm_nil, ← List.perm_nil, hperm.congr_left]
  | some v =>
    rw [member?_eq_some_some_iff, member?_eq_some_some_iff, once_iff_filter, once_iff_filter,
      ← List.perm_singleton, ← List.perm_singleton, hperm.congr_left]

theorem ParameterRecord.spells_object_iff {r : ParameterRecord}
    (h : (known keys members).Perm (known keys others)) :
    Spells (.object members) r ↔ Spells (.object others) r := by
  have same : ∀ key ∈ keys, member? members key = member? others key :=
    fun _ hk => member?_eq_of_known hk h
  simp only [keys, List.forall_mem_cons] at same
  obtain ⟨hn, hs, hd, -⟩ := same
  rw [← ofJson?_eq_some_iff, ← ofJson?_eq_some_iff]
  simp only [ofJson?, required?, memberDescription?, hn, hs, hd]

theorem Record.spells_object_iff {r : Record} (h : (known keys members).Perm (known keys others)) :
    Spells (.object members) r ↔ Spells (.object others) r := by
  have same : ∀ key ∈ keys, member? members key = member? others key :=
    fun _ hk => member?_eq_of_known hk h
  simp only [keys, List.forall_mem_cons] at same
  obtain ⟨hn, ha, hd, hp, -⟩ := same
  rw [← ofJson?_eq_some_iff, ← ofJson?_eq_some_iff]
  simp only [ofJson?, required?, memberDescription?, hn, ha, hd, hp]

end Schema

namespace InstructionSet

open Schema (Record ParameterRecord SpellsDocument known)

variable {text : String} {v : Json} {records : List Record}

theorem ofText_of_spellsDocument (hr : Json.read text = .ok v) (hd : SpellsDocument v records)
    (mode : Mode) : ofText mode text = ofRecords mode records := by
  obtain ⟨rest, hfirst, hrest⟩ := Json.read_eq_ok_iff.mp hr
  rw [ofText, recordsOfText, hfirst]
  simp only [Except.mapError, Outcome.ok_bind, Schema.documentOf?_eq_some_iff.mpr hd, hrest]
  rfl

theorem ofText_of_not_spellsDocument {rest : List Char} (hr : Json.readFirst text = .ok (v, rest))
    (hd : ∀ records, ¬ SpellsDocument v records) (mode : Mode) :
    ofText mode text = .error (.badText .shape) := by
  have hnone : Schema.documentOf? v = none := by
    cases h : Schema.documentOf? v with
    | none => rfl
    | some records => exact absurd (Schema.documentOf?_eq_some_iff.mp h) (hd records)
  rw [ofText, recordsOfText, hr]
  simp only [Except.mapError, Outcome.ok_bind, hnone]
  rfl

/-- A value is read as a record exactly when it spells the record. What an object spells is
told by its members with known keys, in whatever order they stand. A text loads as the
records that its value spells, however it spells them, and is refused for its shape when its
value spells none. -/
theorem ofText_spelled :
    (∀ v r, Record.ofJson? v = some r ↔ Record.Spells v r) ∧
      (∀ members others r, (known Record.keys members).Perm (known Record.keys others) →
        (Record.Spells (.object members) r ↔ Record.Spells (.object others) r)) ∧
      (∀ members others p,
        (known ParameterRecord.keys members).Perm (known ParameterRecord.keys others) →
        (ParameterRecord.Spells (.object members) p ↔ ParameterRecord.Spells (.object others) p)) ∧
      (∀ mode text v r, Json.read text = .ok v → Record.Spells v r →
        ofText mode text = ofRecords mode [r]) ∧
      (∀ mode text items records, Json.read text = .ok (.array items) →
        List.Forall₂ Record.Spells items records → ofText mode text = ofRecords mode records) ∧
      ∀ mode text v rest, Json.readFirst text = .ok (v, rest) →
        (∀ records, ¬ SpellsDocument v records) →
        ofText mode text = .error (.badText .shape) := by
  refine ⟨fun v r => Record.ofJson?_eq_some_iff, fun members others r h => ?_,
    fun members others p h => ?_, fun mode text v r ht hr => ?_,
    fun mode text items records ht hi => ?_, fun mode text v rest ht hd => ?_⟩
  · exact Record.spells_object_iff h
  · exact ParameterRecord.spells_object_iff h
  · exact ofText_of_spellsDocument ht (.single hr) mode
  · exact ofText_of_spellsDocument ht (.list hi) mode
  · exact ofText_of_not_spellsDocument ht hd mode

/-- An object whose members with known keys are between others, and its parameters in both
forms. -/
def scattered : String :=
  "\x7b\"x\":1,\"parameters\":[[\"rd\",\"0-3\"],\x7b\"source\":\"4-4\",\"name\":\"rs\"\x7d]," ++
    "\"architecture\":\"8bit\",\"name\":\"add\",\"x\":2\x7d"

def positional : String :=
  "[\"add\",\"8bit\",null,[\x7b\"name\":\"rd\",\"source\":\"0-3\",\"description\":null\x7d," ++
    "[\"rs\",\"4-4\",null]]]"

theorem ofText_spelled_sample :
    let add : Instruction := ⟨"add", none, [⟨"rd", "0-3", none, [⟨0, .bits 0 3⟩]⟩,
      ⟨"rs", "4-4", none, [⟨0, .bits 4 4⟩]⟩], .bits8⟩
    ofText .strict scattered = .ok ⟨[("add", add)]⟩ ∧
      ofText .strict positional = .ok ⟨[("add", add)]⟩ := by
  intro add
  let r : Record := ⟨"add", "8bit", none, [⟨"rd", "0-3", none⟩, ⟨"rs", "4-4", none⟩]⟩
  have hr : ofRecords .strict [r] = .ok ⟨[("add", add)]⟩ := by decide +kernel
  obtain ⟨spells, -, -, loads, -, -⟩ := ofText_spelled
  rw [← hr]
  constructor
  · refine loads .strict scattered (.object [("x", .ofNat 1), ("parameters", .array [
      .array [.string "rd", .string "0-3"],
      .object [("source", .string "4-4"), ("name", .string "rs")]]),
      ("architecture", .string "8bit"), ("name", .string "add"), ("x", .ofNat 2)])
      r rfl ((spells _ _).mp rfl)
  · refine loads .strict positional (.array [.string "add", .string "8bit", .null, .array [
      .object [("name", .string "rd"), ("source", .string "0-3"), ("description", .null)],
      .array [.string "rs", .string "4-4", .null]]]) r rfl ((spells _ _).mp rfl)

end InstructionSet

end BitLayout
