import BitLayout.Proofs.Json.Nesting
import BitLayout.Proofs.Spelling

/-! # Documents of one record

A value that spells a record is a document by itself, and no list of records; the list that
holds it alone is the same document. Both load alike, as long as the reader goes deep enough
for the brackets around the record.
-/

namespace BitLayout

namespace Json

variable {text : String} {v : Json}

/-- The text of a value between brackets is a text of the array of the value, or it nests too
deep and is malformed. -/
theorem read_bracketed (h : read text = .ok v) :
    Within depthLimit (.array [v]) ∧ read ("[" ++ text ++ "]") = .ok (.array [v]) ∨
      ¬ Within depthLimit (.array [v]) ∧ readFirst ("[" ++ text ++ "]") = .error .malformed := by
  obtain ⟨rest, hfirst, hrest⟩ := read_eq_ok_iff.mp h
  have hchars : ("[" ++ text ++ "]").toList = '[' :: (text.toList ++ [']']) := by simp
  have hlen : ("[" ++ text ++ "]").length = text.length + 2 := by
    rw [← String.length_toList, hchars, List.length_cons, List.length_append,
      String.length_toList]
    rfl
  have hb : text.length ≤ text.length + 2 := Nat.le_add_right _ 2
  obtain ⟨room, hroom⟩ : ∃ room, depthLimit = room + 1 := ⟨126, rfl⟩
  have hread : readFirst ("[" ++ text ++ "]") =
      readValue (text.length + 2) (room + 1) ('[' :: (text.toList ++ [']'])) := by
    rw [readFirst, hchars, hlen, hroom]
  have hw : Within depthLimit (.array [v]) ↔ Within room v := by
    rw [hroom, within_array, List.forall_mem_singleton]
  rw [hw, hread]
  rcases readValue_bracketed hb (Nat.succ_pos _) hfirst hrest with ⟨hv, hok⟩ | hbad
  · exact Or.inl ⟨hv, read_eq_ok_iff.mpr ⟨[], hread.trans hok, rfl⟩⟩
  · exact Or.inr hbad

/-- An empty array inside further arrays, each of which holds nothing else. -/
def nested : Nat → Json
  | 0 => .array []
  | n + 1 => .array [nested n]

theorem within_nested {n depth : Nat} : Within depth (nested n) ↔ n < depth := by
  induction n generalizing depth with
  | zero =>
    cases depth with
    | zero => exact ⟨nofun, nofun⟩
    | succ depth => simp [nested, within_array]
  | succ n ih =>
    cases depth with
    | zero => exact ⟨nofun, nofun⟩
    | succ depth => rw [nested, within_array, List.forall_mem_singleton, ih, Nat.succ_lt_succ_iff]

theorem storable_nested (n : Nat) : Storable (n + 1) (nested n) := by
  induction n with
  | zero => exact .array (by simp)
  | succ n ih => exact .array (List.forall_mem_singleton.mpr ih)

end Json

namespace Schema

variable {v : Json} {r : Record} {records : List Record}

theorem not_recordsOf?_and_ofJson? :
    ¬ (recordsOf? v = some records ∧ Record.ofJson? v = some r) := by
  rintro ⟨hlist, hr⟩
  rw [recordsOf?_eq_none (Record.ofJson?_eq_some_iff.mp hr)] at hlist
  cases hlist

theorem documentOf?_eq_or : documentOf? v = ((Record.ofJson? v).map ([·])).or (recordsOf? v) := by
  rw [documentOf?]
  cases hr : Record.ofJson? v with
  | none => simp
  | some r => simp [recordsOf?_eq_none (Record.ofJson?_eq_some_iff.mp hr)]

theorem Record.Spells.bracketed (h : Record.Spells v r) : SpellsDocument (.array [v]) [r] :=
  .list (.cons h .nil)

end Schema

namespace InstructionSet

open Schema (Record SpellsDocument)

variable {text : String} {v : Json} {r : Record}

theorem ofRecords_singleton (mode : Mode) (r : Record) : ofRecords mode [r] =
    ((convert mode r).mapError (.encoding r.name)).map fun i => ⟨[(i.name, i)]⟩ := by
  rw [ofRecords, List.foldlM_cons, add]
  cases convert mode r with
  | error e => rfl
  | ok i => rfl

theorem ofText_of_malformed (h : Json.readFirst text = .error .malformed) (mode : Mode) :
    ofText mode text = .error (.badText (.json .malformed)) := by
  rw [ofText, recordsOfText, h]
  rfl

/-- No value is read both as a list of records and as one record, so that it does not matter
which of the two is tried first. A value that is read as one record is the same document as
the list that holds it alone, and every text of the one loads like every text of the other;
the text between brackets is such a text unless it nests too deep. -/
theorem ofText_bracketed :
    (∀ v records r, ¬ (Schema.recordsOf? v = some records ∧ Record.ofJson? v = some r)) ∧
      (∀ v, Schema.documentOf? v =
        ((Record.ofJson? v).map ([·])).or (Schema.recordsOf? v)) ∧
      (∀ v r, Record.ofJson? v = some r →
        Schema.documentOf? v = some [r] ∧ Schema.documentOf? (.array [v]) = some [r]) ∧
      ∀ mode text v r, Json.read text = .ok v → Record.ofJson? v = some r →
        ofText mode text =
            ((convert mode r).mapError (.encoding r.name)).map (fun i => ⟨[(i.name, i)]⟩) ∧
          (∀ other, Json.read other = .ok (.array [v]) →
            ofText mode other = ofText mode text) ∧
          (Json.Within Json.depthLimit (.array [v]) →
            ofText mode ("[" ++ text ++ "]") = ofText mode text) ∧
          (¬ Json.Within Json.depthLimit (.array [v]) →
            ofText mode ("[" ++ text ++ "]") = .error (.badText (.json .malformed))) := by
  refine ⟨fun v records r => Schema.not_recordsOf?_and_ofJson?, fun v => Schema.documentOf?_eq_or,
    fun v r hv => ?_, fun mode text v r ht hv => ?_⟩
  · have hr := Record.ofJson?_eq_some_iff.mp hv
    exact ⟨Schema.documentOf?_eq_some_iff.mpr (.single hr),
      Schema.documentOf?_eq_some_iff.mpr hr.bracketed⟩
  · have hr := Record.ofJson?_eq_some_iff.mp hv
    have hone := ofText_of_spellsDocument ht (.single hr) mode
    have hlist : ∀ other, Json.read other = .ok (.array [v]) →
        ofText mode other = ofText mode text :=
      fun other ho => (ofText_of_spellsDocument ho hr.bracketed mode).trans hone.symm
    refine ⟨hone.trans (ofRecords_singleton mode r), hlist, fun hw => ?_, fun hw => ?_⟩
    · rcases Json.read_bracketed ht with ⟨-, hread⟩ | ⟨hn, -⟩
      · exact hlist _ hread
      · exact absurd hw hn
    · rcases Json.read_bracketed ht with ⟨hy, -⟩ | ⟨-, hbad⟩
      · exact absurd hy hw
      · exact ofText_of_malformed hbad mode

/-- A record with an overlap between two of its parameters. -/
def overlapping : String := "[\"ld\",\"8bit\",null,[[\"rd\",\"0-3\"],[\"rs\",\"2-5\"]]]"

theorem ofText_bracketed_sample :
    ofText .lenient ("[" ++ overlapping ++ "]") = ofText .lenient overlapping ∧
      ofText .strict ("[" ++ overlapping ++ "]") = ofText .strict overlapping := by
  obtain ⟨-, -, -, loads⟩ := ofText_bracketed
  have hread : Json.read overlapping = .ok (.array [.string "ld", .string "8bit", .null, .array [
      .array [.string "rd", .string "0-3"], .array [.string "rs", .string "2-5"]]]) := rfl
  have hspells : Record.ofJson? (.array [.string "ld", .string "8bit", .null, .array [
      .array [.string "rd", .string "0-3"], .array [.string "rs", .string "2-5"]]]) =
      some ⟨"ld", "8bit", none, [⟨"rd", "0-3", none⟩, ⟨"rs", "2-5", none⟩]⟩ := rfl
  have hlist : Json.read ("[" ++ overlapping ++ "]") = .ok (.array [.array [.string "ld",
      .string "8bit", .null, .array [.array [.string "rd", .string "0-3"],
        .array [.string "rs", .string "2-5"]]]]) := rfl
  exact ⟨(loads .lenient overlapping _ _ hread hspells).2.1 _ hlist,
    (loads .strict overlapping _ _ hread hspells).2.1 _ hlist⟩

/-- A record that nests as deep as the reader goes, by one container deeper than its further
member. -/
def deepest : Json :=
  .object [("name", .string "a"), ("architecture", .string "8bit"), ("parameters", .array []),
    ("x", Json.nested 125)]

theorem storable_deepest : Json.Storable Json.depthLimit deepest := by
  refine .object fun m hm => ?_
  simp only [List.mem_cons, List.not_mem_nil, or_false] at hm
  rcases hm with rfl | rfl | rfl | rfl
  · exact .string _
  · exact .string _
  · exact .array (by simp)
  · exact Json.storable_nested 125

theorem not_within_deepest : ¬ Json.Within Json.depthLimit (.array [deepest]) := by
  intro h
  have hone : Json.Within 126 deepest := (Json.within_array [deepest]).mp h deepest (by simp)
  have hx := (Json.within_object _).mp hone ("x", Json.nested 125) (by simp)
  exact absurd (Json.within_nested.mp hx) (by decide)

theorem ofText_bracketed_deepest :
    Json.read (Json.text deepest) = .ok deepest ∧
      Record.ofJson? deepest = some ⟨"a", "8bit", none, []⟩ ∧
      ofText .lenient (Json.text deepest) = .ok ⟨[("a", ⟨"a", none, [], .bits8⟩)]⟩ ∧
      ofText .lenient ("[" ++ Json.text deepest ++ "]") =
        .error (.badText (.json .malformed)) ∧
      ∀ other, Json.read other ≠ .ok (.array [deepest]) := by
  have hread : Json.read (Json.text deepest) = .ok deepest := Json.read_text storable_deepest
  have hv : Record.ofJson? deepest = some ⟨"a", "8bit", none, []⟩ := rfl
  refine ⟨hread, hv, ?_, ?_, fun other ho => ?_⟩
  · rw [ofText_of_spellsDocument hread (.single (Record.ofJson?_eq_some_iff.mp hv))]
    rfl
  · rcases Json.read_bracketed hread with ⟨hy, -⟩ | ⟨-, hbad⟩
    · exact absurd hy not_within_deepest
    · exact ofText_of_malformed hbad .lenient
  · obtain ⟨rest, hfirst, -⟩ := Json.read_eq_ok_iff.mp ho
    exact not_within_deepest (Json.within_of_readValue hfirst)

end InstructionSet

end BitLayout
