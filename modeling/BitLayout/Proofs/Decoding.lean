import BitLayout.CommandLine.Command
import BitLayout.Proofs.Numeral
import BitLayout.Proofs.Session

/-! # Decoding

A decoding fails over the word before it looks at the file, and over the file before it
looks for the name. When it succeeds, its text gives every parameter of every selected
instruction a line of its own, and it warns about the instructions whose words are narrower
than the word.
-/

namespace BitLayout

theorem Word.fits_iff_lt {w : Word} {count : Nat} : w.fits count = true ↔ w.toNat < 2 ^ count := by
  rw [Word.fits, beq_iff_eq, ← BitVec.toNat_inj, BitVec.toNat_ushiftRight,
    Nat.shiftRight_eq_div_pow]
  exact Nat.div_eq_zero_iff_lt (Nat.two_pow_pos count)

theorem Instruction.Valid.entries_decode {i : Instruction} (h : i.Valid) (w : Word) :
    (i.decode w).entries = i.parameters.map fun p => (p.name, p.value w) := by
  refine OrderedMap.entries_ofList ?_
  rw [List.map_map]
  exact h.nodup

namespace Log

theorem level_of_mem_ofParameters {rs : List Schema.ParameterRecord} {e : Event}
    (h : e ∈ ofParameters rs) : e.level ≠ .warn := by
  induction rs with
  | nil => simp [ofParameters] at h
  | cons r rest ih =>
    rw [ofParameters] at h
    split at h
    · rcases List.mem_cons.mp h with rfl | h
      · simp [Event.level]
      · exact ih h
    · simp at h

theorem level_of_mem_ofRecord {r : Schema.Record} {e : Event} (h : e ∈ ofRecord r) :
    e.level ≠ .warn := by
  rcases List.mem_append.mp h with h | h
  · exact level_of_mem_ofParameters h
  · split at h
    · rw [List.mem_singleton.mp h]
      simp [Event.level]
    · simp at h

theorem level_of_mem_ofRecords {mode : Mode} {s : InstructionSet} {records : List Schema.Record}
    {e : Event} (h : e ∈ ofRecords mode s records) : e.level ≠ .warn := by
  induction records generalizing s with
  | nil => simp [ofRecords] at h
  | cons r rest ih =>
    rw [ofRecords] at h
    rcases List.mem_append.mp h with h | h
    · exact level_of_mem_ofRecord h
    · split at h
      · exact ih h
      · simp at h

theorem level_of_mem_ofLoading {mode : Mode} {path text : String} {e : Event}
    (h : e ∈ ofLoading mode path text) : e.level ≠ .warn := by
  rw [ofLoading] at h
  split at h
  · simp at h
  · rcases List.mem_append.mp h with h | h
    · exact level_of_mem_ofRecords h
    · split at h
      · rw [List.mem_singleton.mp h]
        simp [Event.level]
      · simp at h

end Log

namespace CommandLine

open Text.Numeral (Denotes denotes_write)

/-- The text has one piece for each thing of a row, in its order. -/
def Pieces {α : Type} (R : α → String → Prop) (as : List α) (text : String) : Prop :=
  ∃ pieces, List.Forall₂ R as pieces ∧ text = String.join pieces

/-- The line gives the value of a parameter, in decimal and in hexadecimal. -/
def ShowsValue (w : Word) (p : Parameter) (line : String) : Prop :=
  ∃ decimal hex, Denotes 10 decimal (p.value w).toNat ∧ Denotes 16 hex (p.value w).toNat ∧
    line = "  " ++ p.name ++ " = " ++ decimal ++ " (0x" ++ hex ++ ")\n"

/-- The block is headed by the name of an instruction and has one line for each parameter. -/
def ShowsValues (w : Word) (i : Instruction) (block : String) : Prop :=
  ∃ lines, Pieces (ShowsValue w) i.parameters lines ∧ block = i.name ++ ":\n" ++ lines

/-- The file at a path holds a document that loads as a set. -/
def Loads (files : Files) (mode : Mode) (path : String) (s : InstructionSet) : Prop :=
  ∃ text, files path = .ok text ∧ InstructionSet.ofText mode text = .ok s

inductive LoadFault (files : Files) (mode : Mode) (path : String) : Schema.Error → Prop
  | unreadable {cause : Schema.ReadFault} : files path = .error cause →
      LoadFault files mode path (.unreadable path cause)
  | refused {text : String} {cause : Schema.Error} : files path = .ok text →
      InstructionSet.ofText mode text = .error cause → LoadFault files mode path cause

/-- The selected instructions: all of them, or the one of a given name. -/
inductive Selects (s : InstructionSet) : Option String → List Instruction → Prop
  | all : Selects s none s.values
  | one {i : Instruction} : i ∈ s.values → Selects s (some i.name) [i]

/-- Why a decoding fails: each fault presupposes that there is none before it. -/
inductive DecodeFault (files : Files) (o : DecodeOptions) : Failure → Prop
  | word {cause : WordError} : Word.ofText o.word = .error cause → DecodeFault files o (.word cause)
  | schema {w : Word} {cause : Schema.Error} : Word.ofText o.word = .ok w →
      LoadFault files o.mode o.schema cause → DecodeFault files o (.schema o.schema cause)
  | selection {w : Word} {s : InstructionSet} {name : String} : Word.ofText o.word = .ok w →
      Loads files o.mode o.schema s → o.instruction = some name →
      (∀ i ∈ s.values, i.name ≠ name) →
      DecodeFault files o (.selection (.unknownInstruction name))

variable {files : Files} {mode : Mode} {path : String} {s : InstructionSet} {w : Word}
  {name? : Option String} {is : List Instruction} {i : Instruction} {o : DecodeOptions}
  {f : Failure} {out : String}

theorem pieces_map {α : Type} {R : α → String → Prop} {as : List α} {f : α → String}
    (h : ∀ a ∈ as, R a (f a)) : Pieces R as (String.join (as.map f)) :=
  ⟨as.map f, List.forall₂_map_right_iff.mpr (List.forall₂_same.mpr h), rfl⟩

theorem Pieces.imp {α : Type} {R S : α → String → Prop} {as : List α} {text : String}
    (h : ∀ a piece, R a piece → S a piece) (hp : Pieces R as text) : Pieces S as text := by
  obtain ⟨pieces, hr, rfl⟩ := hp
  exact ⟨pieces, hr.imp h, rfl⟩

theorem showsValue_valueLine (w : Word) (p : Parameter) :
    ShowsValue w p (valueLine p.name (p.value w)) := by
  refine ⟨_, _, denotes_write (by decide) _, denotes_write (by decide) _, ?_⟩
  have mark : " (0x" = " (" ++ "0x" := rfl
  rw [mark]
  simp only [valueLine, Text.Numeral.writeDecimal, Text.Numeral.writeHex, String.append_assoc]

theorem showsValues_decodedBlock (h : i.Valid) (w : Word) :
    ShowsValues w i (decodedBlock i.name (i.decode w)) := by
  refine ⟨_, ?_, rfl⟩
  rw [h.entries_decode, List.map_map]
  exact pieces_map fun p _ => showsValue_valueLine w p

theorem entries_decodeAll (h : (is.map (·.name)).Nodup) (w : Word) :
    (decodeAll is w).entries = is.map fun i => (i.name, i.decode w) := by
  refine OrderedMap.entries_ofList ?_
  rw [List.map_map]
  exact h

theorem decodedText_decodeAll (h : (is.map (·.name)).Nodup) (w : Word) :
    decodedText (decodeAll is w) =
      String.join (is.map fun i => decodedBlock i.name (i.decode w)) := by
  rw [decodedText, entries_decodeAll h, List.map_map]
  rfl

theorem loadSchema_eq_ok_iff : loadSchema files mode path = .ok s ↔ Loads files mode path s := by
  rw [loadSchema, Loads]
  split <;> simp [*, Outcome.mapError_eq_ok_iff]

theorem loadSchema_eq_error_iff : loadSchema files mode path = .error f ↔
    ∃ cause, LoadFault files mode path cause ∧ f = .schema path cause := by
  constructor
  · intro h
    rw [loadSchema] at h
    split at h
    · rename_i cause hr
      cases h
      exact ⟨_, .unreadable hr, rfl⟩
    · rename_i text hr
      obtain ⟨cause, hc, rfl⟩ := Outcome.mapError_eq_error_iff.mp h
      exact ⟨cause, .refused hr hc, rfl⟩
  · rintro ⟨cause, hc, rfl⟩
    rw [loadSchema]
    cases hc with
    | unreadable hr => rw [hr]
    | refused hr hc =>
      rw [hr]
      exact Outcome.mapError_eq_error_iff.mpr ⟨cause, hc, rfl⟩

theorem Loads.valid (h : Loads files mode path s) : s.Valid := by
  obtain ⟨text, -, ht⟩ := h
  exact InstructionSet.valid_of_ofText ht

theorem Loads.lenient (h : Loads files .strict path s) : Loads files .lenient path s := by
  obtain ⟨text, ht, hs⟩ := h
  exact ⟨text, ht, InstructionSet.ofText_lenient_of_strict hs⟩

theorem select_eq_ok_iff (hs : s.Valid) : select s name? = .ok is ↔ Selects s name? is := by
  cases name? with
  | none =>
    rw [select, Except.ok.injEq]
    constructor
    · rintro rfl
      exact .all
    · rintro ⟨⟩
      rfl
  | some name =>
    rw [select, Outcome.mapError_eq_ok_iff, Outcome.map_eq_ok_iff]
    constructor
    · rintro ⟨i, hi, rfl⟩
      obtain ⟨hm, rfl⟩ := hs.get?_eq_some_iff.mp (InstructionSet.require_eq_ok_iff.mp hi)
      exact .one hm
    · rintro (_ | hm)
      exact ⟨_, InstructionSet.require_eq_ok_iff.mpr (hs.get?_eq_some_iff.mpr ⟨hm, rfl⟩), rfl⟩

theorem select_eq_error_iff (hs : s.Valid) : select s name? = .error f ↔
    ∃ name, name? = some name ∧ (∀ i ∈ s.values, i.name ≠ name) ∧
      f = .selection (.unknownInstruction name) := by
  cases name? with
  | none => simp [select]
  | some name =>
    rw [select, Outcome.mapError_eq_error_iff]
    simp only [Outcome.map_eq_error_iff, hs.require_eq_error_iff, Option.some.injEq]
    constructor
    · rintro ⟨e, ⟨hn, rfl⟩, rfl⟩
      exact ⟨name, rfl, hn, rfl⟩
    · rintro ⟨n, rfl, hn, rfl⟩
      exact ⟨_, ⟨hn, rfl⟩, rfl⟩

theorem Selects.mem (h : Selects s name? is) : ∀ i ∈ is, i ∈ s.values := by
  cases h with
  | all => exact fun i hi => hi
  | one hm => exact List.forall_mem_singleton.mpr hm

theorem Selects.reachable (h : Selects s name? is) (hs : s.Valid) : ∀ i ∈ is, i.Reachable :=
  fun i hi => Instruction.reachable_iff_valid.mpr (hs.values i (h.mem i hi))

theorem Selects.nodup (h : Selects s name? is) (hs : s.Valid) : (is.map (·.name)).Nodup := by
  cases h with
  | all => exact hs.map_names ▸ hs.nodup
  | one hm => simp

theorem bind_select_eq_ok_iff {text : List Instruction → String} :
    (do
      let s ← loadSchema files mode path
      let is ← select s name?
      Except.ok (text is)) = .ok out ↔
      ∃ s is, Loads files mode path s ∧ Selects s name? is ∧ out = text is := by
  simp only [Outcome.bind_eq_ok_iff, loadSchema_eq_ok_iff, Except.ok.injEq]
  constructor
  · rintro ⟨s, hs, is, hi, rfl⟩
    exact ⟨s, is, hs, (select_eq_ok_iff hs.valid).mp hi, rfl⟩
  · rintro ⟨s, is, hs, hi, rfl⟩
    exact ⟨s, hs, is, (select_eq_ok_iff hs.valid).mpr hi, rfl⟩

theorem runDecode_eq_ok_iff : runDecode files o = .ok out ↔
    ∃ w s is, Word.ofText o.word = .ok w ∧ Loads files o.mode o.schema s ∧
      Selects s o.instruction is ∧
      out = if o.json then (decodedJson (decodeAll is w)).text ++ "\n"
        else decodedText (decodeAll is w) := by
  rw [runDecode, Outcome.bind_eq_ok_iff]
  constructor
  · rintro ⟨w, hw, h⟩
    obtain ⟨s, is, hs, hi, rfl⟩ := bind_select_eq_ok_iff.mp h
    exact ⟨w, s, is, Outcome.mapError_eq_ok_iff.mp hw, hs, hi, rfl⟩
  · rintro ⟨w, s, is, hw, hs, hi, rfl⟩
    exact ⟨w, Outcome.mapError_eq_ok_iff.mpr hw, bind_select_eq_ok_iff.mpr ⟨s, is, hs, hi, rfl⟩⟩

theorem runDecode_eq_error_iff : runDecode files o = .error f ↔ DecodeFault files o f := by
  simp only [runDecode, Outcome.bind_eq_error_iff, Outcome.mapError_eq_error_iff,
    Outcome.mapError_eq_ok_iff, loadSchema_eq_ok_iff, loadSchema_eq_error_iff, reduceCtorEq,
    and_false, exists_false, or_false]
  constructor
  · rintro (⟨cause, hw, rfl⟩ | ⟨w, hw, ⟨cause, hc, rfl⟩ | ⟨s, hs, hi⟩⟩)
    · exact .word hw
    · exact .schema hw hc
    · obtain ⟨name, hn, fresh, rfl⟩ := (select_eq_error_iff hs.valid).mp hi
      exact .selection hw hs hn fresh
  · intro h
    cases h with
    | word hw => exact .inl ⟨_, hw, rfl⟩
    | schema hw hc => exact .inr ⟨_, hw, .inl ⟨_, hc, rfl⟩⟩
    | selection hw hs hn fresh =>
      exact .inr ⟨_, hw, .inr ⟨_, hs, (select_eq_error_iff hs.valid).mpr ⟨_, hn, fresh, rfl⟩⟩⟩

theorem pieces_decodedText (hs : s.Valid) (h : Selects s name? is) (w : Word) :
    Pieces (ShowsValues w) is (decodedText (decodeAll is w)) := by
  rw [decodedText_decodeAll (h.nodup hs)]
  exact pieces_map fun i hi => showsValues_decodedBlock (hs.values i (h.mem i hi)) w

/-- The text for one instruction is its block in the text for all. -/
theorem decodedText_split (hs : s.Valid) (hi : i ∈ s.values) (w : Word) :
    ∃ before after front back, s.values = before ++ i :: after ∧
      Pieces (ShowsValues w) before front ∧ Pieces (ShowsValues w) after back ∧
      decodedText (decodeAll s.values w) = front ++ decodedText (decodeAll [i] w) ++ back := by
  obtain ⟨before, after, he⟩ := List.append_of_mem hi
  have hall := hs.values
  rw [he, List.forall_mem_append, List.forall_mem_cons] at hall
  refine ⟨before, after, _, _, he, pieces_map fun j hj => showsValues_decodedBlock (hall.1 j hj) w,
    pieces_map fun j hj => showsValues_decodedBlock (hall.2.2 j hj) w, ?_⟩
  rw [decodedText_decodeAll (Selects.all.nodup hs), decodedText_decodeAll (by simp), he]
  simp [String.append_assoc]

theorem warnings_eq (is : List Instruction) (w : Word) : warnings is w =
    (is.filter fun i => 2 ^ i.architecture.bits ≤ w.toNat).map fun i =>
      .tooWide w i.architecture i.name := by
  rw [warnings]
  congr 1
  refine List.filter_congr fun i _ => ?_
  rw [Instruction.fits, Architecture.fits, Bool.eq_iff_iff, Bool.not_eq_true',
    ← Bool.not_eq_true, Word.fits_iff_lt, decide_eq_true_iff, Nat.not_lt]

theorem level_of_mem_loadingEvents {e : Log.Event} (h : e ∈ loadingEvents files mode path) :
    e.level ≠ .warn := by
  rw [loadingEvents] at h
  split at h
  · simp at h
  · exact Log.level_of_mem_ofLoading h

theorem filter_warn_events (hw : Word.ofText o.word = .ok w) (hl : Loads files o.mode o.schema s)
    (hi : Selects s o.instruction is) :
    ((Command.decode o).events files).filter (·.level = .warn) = warnings is w := by
  have loading : (loadingEvents files o.mode o.schema).filter (·.level = .warn) = [] := by
    simpa [List.filter_eq_nil_iff] using fun e he => level_of_mem_loadingEvents he
  have kept : (warnings is w).filter (·.level = .warn) = warnings is w := by
    refine List.filter_eq_self.mpr fun e he => ?_
    obtain ⟨i, -, rfl⟩ := List.mem_map.mp he
    simp [Log.Event.level]
  rw [Command.events, hw, List.filter_append, loading, List.nil_append, decodingEvents,
    loadSchema_eq_ok_iff.mpr hl]
  simp only [(select_eq_ok_iff hl.valid).mpr hi]
  rw [List.filter_append, kept]
  simp [Log.Event.level]

/-- A decoding succeeds when the word is one, the file loads and a given name is in the set,
and otherwise fails over the first of these that is missing. Its text has a block for each
selected instruction and in it a line for each parameter, and with a name it is the block
that the text for all instructions has for that name. It warns about the selected
instructions whose words are narrower than the word. -/
theorem runDecode_outcome (files : Files) (o : DecodeOptions) :
    (∀ f, runDecode files o = .error f ↔ DecodeFault files o f) ∧
    ((∃ out, runDecode files o = .ok out) ↔ ∃ w s, Word.ofText o.word = .ok w ∧
      Loads files o.mode o.schema s ∧
      ∀ name, o.instruction = some name → ∃ i ∈ s.values, i.name = name) ∧
    ∀ out, runDecode files o = .ok out → ∃ w s is, Word.ofText o.word = .ok w ∧
      Loads files o.mode o.schema s ∧ Selects s o.instruction is ∧
      (s.values.map (·.name)).Nodup ∧
      (o.json = false → Pieces (ShowsValues w) is out ∧
        ∀ name, o.instruction = some name → ∃ before i after front back,
          s.values = before ++ i :: after ∧ i.name = name ∧
          Pieces (ShowsValues w) before front ∧ Pieces (ShowsValues w) after back ∧
          runDecode files { o with instruction := none } = .ok (front ++ out ++ back)) ∧
      ((Command.decode o).events files).filter (·.level = .warn) =
        (is.filter fun i => 2 ^ i.architecture.bits ≤ w.toNat).map fun i =>
          .tooWide w i.architecture i.name := by
  refine ⟨fun f => runDecode_eq_error_iff, ?_, fun out h => ?_⟩
  · simp only [runDecode_eq_ok_iff]
    constructor
    · rintro ⟨-, w, s, is, hw, hs, hi, -⟩
      refine ⟨w, s, hw, hs, fun name hn => ?_⟩
      rw [hn] at hi
      cases hi with
      | one hm => exact ⟨_, hm, rfl⟩
    · rintro ⟨w, s, hw, hs, hi⟩
      cases hn : o.instruction with
      | none => exact ⟨_, w, s, _, hw, hs, .all, rfl⟩
      | some name =>
        obtain ⟨i, hm, rfl⟩ := hi name hn
        exact ⟨_, w, s, _, hw, hs, .one hm, rfl⟩
  · obtain ⟨w, s, is, hw, hs, hi, rfl⟩ := runDecode_eq_ok_iff.mp h
    refine ⟨w, s, is, hw, hs, hi, Selects.all.nodup hs.valid, fun hj => ?_,
      (filter_warn_events hw hs hi).trans (warnings_eq is w)⟩
    rw [hj, if_neg (by simp)]
    refine ⟨pieces_decodedText hs.valid hi w, fun name hn => ?_⟩
    rw [hn] at hi
    cases hi with
    | @one i hm =>
      obtain ⟨before, after, front, back, he, hf, hb, ht⟩ := decodedText_split hs.valid hm w
      refine ⟨before, i, after, front, back, he, rfl, hf, hb, ?_⟩
      refine runDecode_eq_ok_iff.mpr ⟨w, s, s.values, hw, hs, .all, ?_⟩
      simp [ht]

/-- One of two instructions, for a word that is too wide for both. -/
theorem runDecode_outcome_sample :
    let files : Files := fun _ => .ok
      "[[\"nop\",\"8bit\",null,[]],[\"ldi\",\"8bit\",null,[[\"rd\",\"4-7\"],[\"imm\",\"0-3,##\"]]]]"
    let o : DecodeOptions := ⟨"isa", some "ldi", .strict, false, "0x1_B4"⟩
    let out := "ldi:\n  rd = 11 (0xb)\n  imm = 16 (0x10)\n"
    runDecode files o = .ok out ∧
      ((Command.decode o).events files).filter (·.level = .warn) = [.tooWide 0x1b4 .bits8 "ldi"] ∧
      (∃ front back, runDecode files { o with instruction := none } = .ok (front ++ out ++ back)) ∧
      runDecode files { o with instruction := some "jmp", word := "+1" } =
        .error (.word (.signed "+1")) := by
  intro files o out
  have h : runDecode files o = .ok out := by decide +kernel
  refine ⟨h, by decide +kernel, ?_, ?_⟩
  · obtain ⟨-, -, success⟩ := runDecode_outcome files o
    obtain ⟨w, s, is, -, -, -, -, text, -⟩ := success out h
    obtain ⟨before, i, after, front, back, -, -, -, -, hall⟩ := (text rfl).2 "ldi" rfl
    exact ⟨front, back, hall⟩
  · -- the word is refused before the name is looked for
    obtain ⟨failure, -, -⟩ := runDecode_outcome files
      { o with instruction := some "jmp", word := "+1" }
    refine (failure _).mpr (.word ?_)
    decide

end CommandLine

end BitLayout
