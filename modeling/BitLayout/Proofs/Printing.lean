import BitLayout.Proofs.Decoding

/-! # Printing

The commands print as they go: a line for each instruction, parameter or slice. Whether a
command fails is settled before its first line, so a command that fails has printed nothing.
Checking, decoding and showing a schema fail alike when it does not load, and a schema that
loads strictly loads leniently as the same set.
-/

namespace BitLayout

namespace CommandLine

open Text.Numeral (writeDecimal)

/-- A computation that prints. What it has printed before it fails stays printed. -/
abbrev Printing := EStateM Failure String

def put (text : String) : Printing Unit := modify (· ++ text)

def printDecoded (d : Decoded) : Printing Unit :=
  d.entries.forM fun e => do
    put (e.1 ++ ":\n")
    e.2.entries.forM fun v => put (valueLine v.1 v.2)

def printDecode (files : Files) (o : DecodeOptions) : Printing Unit := do
  let w ← MonadExcept.ofExcept ((Word.ofText o.word).mapError .word)
  let s ← MonadExcept.ofExcept (loadSchema files o.mode o.schema)
  let instructions ← MonadExcept.ofExcept (select s o.instruction)
  let decoded := decodeAll instructions w
  if o.json then do
    put (decodedJson decoded).text
    put "\n"
  else printDecoded decoded

def printCheck (files : Files) (schema : String) (mode : Mode) : Printing Unit := do
  let s ← MonadExcept.ofExcept (loadSchema files mode schema)
  s.values.forM fun i => put (checkLine i)
  put (schema ++ ": " ++ writeDecimal s.size ++ " instructions OK\n")

def printParameter (p : Parameter) : Printing Unit := do
  put ("  " ++ p.name ++ " = \"" ++ p.source ++ "\" (" ++ writeDecimal p.width ++ " bits)\n")
  p.layout.forM fun s => put (sliceLine s)

def printDescription : Option String → Printing Unit
  | some description => put (": " ++ description ++ "\n")
  | none => put "\n"

def printInstruction (i : Instruction) : Printing Unit := do
  put (i.name ++ " (" ++ i.architecture.tag ++ ")")
  printDescription i.description
  i.parameters.forM printParameter

def printPresent (files : Files) (schema : String) (instruction : Option String) :
    Printing Unit := do
  let s ← MonadExcept.ofExcept (loadSchema files .lenient schema)
  let instructions ← MonadExcept.ofExcept (select s instruction)
  instructions.forM printInstruction

def Command.print (files : Files) : Command → Printing Unit
  | decode o => printDecode files o
  | check schema mode => printCheck files schema mode
  | present schema instruction => printPresent files schema instruction

/-- The computation prints the text of an outcome, or fails with its error and prints nothing. -/
def Performs (x : Printing Unit) : Except Failure String → Prop
  | .ok text => ∀ printed, x.run printed = .ok () (printed ++ text)
  | .error f => ∀ printed, x.run printed = .error f printed

variable {files : Files} {mode : Mode} {path out : String} {f : Failure}
  {x y : Printing Unit} {α : Type}

theorem performs_put (text : String) : Performs (put text) (.ok text) := fun _ => rfl

theorem Performs.andThen {front back : String} (hx : Performs x (.ok front))
    (hy : Performs y (.ok back)) : Performs (do x; y) (.ok (front ++ back)) := by
  intro printed
  rw [EStateM.run_bind, hx printed]
  exact (hy (printed ++ front)).trans (by rw [String.append_assoc])

theorem performs_forM {as : List α} {print : α → Printing Unit} {text : α → String}
    (h : ∀ a ∈ as, Performs (print a) (.ok (text a))) :
    Performs (as.forM print) (.ok (String.join (as.map text))) := by
  induction as with
  | nil => exact fun printed => by simp [String.join]
  | cons a as ih =>
    rw [List.forall_mem_cons] at h
    rw [List.map_cons, String.join_cons]
    exact h.1.andThen (ih h.2)

/-- A step that may fail comes before anything is printed. -/
theorem performs_attempt {step : Except Failure α} {print : α → Printing Unit}
    {run : α → Except Failure String} (h : ∀ a, Performs (print a) (run a)) :
    Performs (MonadExcept.ofExcept step >>= print) (step >>= run) := by
  cases step with
  | error f => exact fun _ => rfl
  | ok a => exact h a

theorem performs_printDecoded (d : Decoded) : Performs (printDecoded d) (.ok (decodedText d)) :=
  performs_forM fun e _ => (performs_put (e.1 ++ ":\n")).andThen
    (performs_forM fun v _ => performs_put (valueLine v.1 v.2))

theorem performs_printParameter (p : Parameter) :
    Performs (printParameter p) (.ok (parameterBlock p)) :=
  (performs_put _).andThen (performs_forM fun s _ => performs_put (sliceLine s))

theorem performs_printDescription (description : Option String) :
    Performs (printDescription description)
      (.ok ((match description with
        | some text => ": " ++ text
        | none => "") ++ "\n")) := by
  cases description with
  | none => exact performs_put "\n"
  | some text => exact performs_put (": " ++ text ++ "\n")

theorem performs_printInstruction (i : Instruction) :
    Performs (printInstruction i) (.ok (instructionBlock i)) := by
  have parameters := performs_forM fun p (_ : p ∈ i.parameters) => performs_printParameter p
  have h := (performs_put (i.name ++ " (" ++ i.architecture.tag ++ ")")).andThen
    ((performs_printDescription i.description).andThen parameters)
  rwa [← String.append_assoc, ← String.append_assoc] at h

/-- Printing line by line comes to what the command gives: its text, or nothing. -/
theorem performs_print (files : Files) (c : Command) : Performs (c.print files) (c.run files) := by
  cases c with
  | decode o =>
    refine performs_attempt fun w => performs_attempt fun s => performs_attempt fun is => ?_
    cases o.json with
    | true => exact (performs_put _).andThen (performs_put "\n")
    | false => exact performs_printDecoded _
  | check schema mode =>
    refine performs_attempt fun s => ?_
    have h := (performs_forM fun i (_ : i ∈ s.values) => performs_put (checkLine i)).andThen
      (performs_put (schema ++ ": " ++ writeDecimal s.size ++ " instructions OK\n"))
    simpa [String.append_assoc] using h
  | present schema instruction =>
    refine performs_attempt fun s => performs_attempt fun is => ?_
    exact performs_forM fun i _ => performs_printInstruction i

theorem print_eq_ok_iff {c : Command} :
    (c.print files).run "" = .ok () out ↔ c.run files = .ok out := by
  have h := performs_print files c
  cases hr : c.run files with
  | ok text =>
    rw [hr] at h
    simp [h ""]
  | error f =>
    rw [hr] at h
    simp [h ""]

theorem print_eq_error_iff {c : Command} {printed : String} :
    (c.print files).run "" = .error f printed ↔ c.run files = .error f ∧ printed = "" := by
  have h := performs_print files c
  cases hr : c.run files with
  | ok text =>
    rw [hr] at h
    simp [h ""]
  | error g =>
    rw [hr] at h
    simp [h "", eq_comm]

def Readable (word : String) : Prop := ∃ w, Word.ofText word = .ok w

/-- The file loads, but the set has no instruction of the name. -/
def Unlisted (files : Files) (mode : Mode) (path name : String) (f : Failure) : Prop :=
  ∃ s, Loads files mode path s ∧ (∀ i ∈ s.values, i.name ≠ name) ∧
    f = .selection (.unknownInstruction name)

theorem runCheck_eq_error_iff :
    runCheck files path mode = .error f ↔ loadSchema files mode path = .error f := by
  simp [runCheck, Outcome.bind_eq_error_iff]

theorem bind_select_eq_error_iff {name? : Option String} {text : List Instruction → String} :
    (do
      let s ← loadSchema files mode path
      let is ← select s name?
      Except.ok (text is)) = .error f ↔
      loadSchema files mode path = .error f ∨
        ∃ name, name? = some name ∧ Unlisted files mode path name f := by
  simp only [Outcome.bind_eq_error_iff, loadSchema_eq_ok_iff, reduceCtorEq, and_false, exists_false,
    or_false]
  refine or_congr_right ?_
  constructor
  · rintro ⟨s, hs, hf⟩
    obtain ⟨name, hn, fresh, rfl⟩ := (select_eq_error_iff hs.valid).mp hf
    exact ⟨name, hn, s, hs, fresh, rfl⟩
  · rintro ⟨name, hn, s, hs, fresh, rfl⟩
    exact ⟨s, hs, (select_eq_error_iff hs.valid).mpr ⟨name, hn, fresh, rfl⟩⟩

theorem runPresent_eq_ok_iff {name? : Option String} : runPresent files path name? = .ok out ↔
    ∃ s is, Loads files .lenient path s ∧ Selects s name? is ∧
      out = String.join (is.map instructionBlock) :=
  bind_select_eq_ok_iff

theorem runPresent_eq_error_iff {name? : Option String} :
    runPresent files path name? = .error f ↔ loadSchema files .lenient path = .error f ∨
      ∃ name, name? = some name ∧ Unlisted files .lenient path name f :=
  bind_select_eq_error_iff

/-- Once the word is read, decoding can fail only where showing can. -/
theorem runDecode_eq_error_iff_of_readable (o : DecodeOptions) (hw : Readable o.word) :
    runDecode files o = .error f ↔ loadSchema files o.mode o.schema = .error f ∨
      ∃ name, o.instruction = some name ∧ Unlisted files o.mode o.schema name f := by
  obtain ⟨w, hw⟩ := hw
  rw [runDecode, hw]
  exact bind_select_eq_error_iff

theorem readable_zero : Readable "0" := ⟨0, by decide⟩

theorem runDecode_all_eq_error_iff {word : String} (json : Bool) (hw : Readable word) :
    runDecode files ⟨path, none, mode, json, word⟩ = .error f ↔
      runCheck files path mode = .error f := by
  rw [runCheck_eq_error_iff, runDecode_eq_error_iff_of_readable ⟨path, none, mode, json, word⟩ hw]
  simp

theorem exists_runDecode_all_iff {word : String} (json : Bool) (hw : Readable word) :
    (∃ out, runDecode files ⟨path, none, mode, json, word⟩ = .ok out) ↔
      ∃ out, runCheck files path mode = .ok out := by
  simp only [Outcome.exists_ok_iff, ne_eq, runDecode_all_eq_error_iff json hw]

theorem runCheck_lenient_of_strict (h : runCheck files path .strict = .ok out) :
    runCheck files path .lenient = .ok out := by
  obtain ⟨s, hs, ht⟩ := Outcome.bind_eq_ok_iff.mp h
  have hl := (loadSchema_eq_ok_iff.mp hs).lenient
  exact Outcome.bind_eq_ok_iff.mpr ⟨s, loadSchema_eq_ok_iff.mpr hl, ht⟩

/-- Checking a schema and decoding all its instructions, with any word that is one, fail alike,
and so do showing and checking leniently. A schema that passes the strict check is printed the
same without it. With a name, showing and decoding fail besides exactly when the loaded set
does not have it. A command that fails has printed nothing. -/
theorem commands_agree (files : Files) (path : String) :
    (∀ mode,
      ((∃ out, runCheck files path mode = .ok out) ↔ ∃ word json out, Readable word ∧
        runDecode files ⟨path, none, mode, json, word⟩ = .ok out) ∧
      ((∃ out, runCheck files path mode = .ok out) ↔ ∀ word json, Readable word →
        ∃ out, runDecode files ⟨path, none, mode, json, word⟩ = .ok out) ∧
      ∀ f word json, Readable word → (runCheck files path mode = .error f ↔
        runDecode files ⟨path, none, mode, json, word⟩ = .error f)) ∧
    ((∃ out, runPresent files path none = .ok out) ↔
      ∃ out, runCheck files path .lenient = .ok out) ∧
    (∀ out, runCheck files path .strict = .ok out → runCheck files path .lenient = .ok out) ∧
    (∀ name f, runPresent files path (some name) = .error f ↔
      runPresent files path none = .error f ∨ Unlisted files .lenient path name f) ∧
    (∀ name mode json word f, Readable word →
      (runDecode files ⟨path, some name, mode, json, word⟩ = .error f ↔
        runDecode files ⟨path, none, mode, json, word⟩ = .error f ∨
          Unlisted files mode path name f)) ∧
    ∀ c : Command, (∀ out, c.run files = .ok out ↔ (c.print files).run "" = .ok () out) ∧
      ∀ f printed, (c.print files).run "" = .error f printed ↔
        c.run files = .error f ∧ printed = "" := by
  refine ⟨fun mode => ⟨⟨fun h => ?_, ?_⟩, ⟨fun h word json hw => ?_, fun h => ?_⟩,
    fun f word json hw => (runDecode_all_eq_error_iff json hw).symm⟩, ?_,
    fun out h => runCheck_lenient_of_strict h, fun name f => ?_,
    fun name mode json word f hw => ?_,
    fun c => ⟨fun out => print_eq_ok_iff.symm, fun f printed => print_eq_error_iff⟩⟩
  · obtain ⟨out, ho⟩ := (exists_runDecode_all_iff false readable_zero).mpr h
    exact ⟨"0", false, out, readable_zero, ho⟩
  · rintro ⟨word, json, out, hw, ho⟩
    exact (exists_runDecode_all_iff json hw).mp ⟨out, ho⟩
  · exact (exists_runDecode_all_iff json hw).mpr h
  · exact (exists_runDecode_all_iff false readable_zero).mp (h "0" false readable_zero)
  · simp [Outcome.exists_ok_iff, runCheck_eq_error_iff, runPresent_eq_error_iff]
  · simp [runPresent_eq_error_iff]
  · rw [runDecode_eq_error_iff_of_readable ⟨path, some name, mode, json, word⟩ hw,
      runDecode_eq_error_iff_of_readable ⟨path, none, mode, json, word⟩ hw]
    simp

/-- A schema that loads leniently only: the strict commands fail alike and print nothing. -/
theorem commands_agree_sample :
    let files : Files := fun _ => .ok
      "[[\"add\",\"8bit\",null,[[\"rd\",\"0-3\"]]],[\"ld\",\"8bit\",null,[[\"rs\",\"2-9\"]]]]"
    let cause := Failure.schema "isa" (.encoding "ld" (.bitOutside "rs" 9 8))
    let unknown := Failure.selection (.unknownInstruction "jmp")
    let decode (name? : Option String) (mode : Mode) : DecodeOptions :=
      ⟨"isa", name?, mode, false, "0x_1f"⟩
    Readable "0x_1f" ∧ runCheck files "isa" .strict = .error cause ∧
      runDecode files (decode none .strict) = .error cause ∧
      ((Command.decode (decode none .strict)).print files).run "" = .error cause "" ∧
      (∃ out, runCheck files "isa" .lenient = .ok out) ∧
      (∃ out, runPresent files "isa" none = .ok out) ∧
      runDecode files (decode (some "jmp") .lenient) = .error unknown ∧
      Unlisted files .lenient "isa" "jmp" unknown := by
  intro files cause unknown decode
  obtain ⟨modes, shown, -, -, named, printed⟩ := commands_agree files "isa"
  have hw : Readable "0x_1f" := ⟨0x1f, by decide⟩
  have hc : runCheck files "isa" .strict = .error cause := by decide +kernel
  have hd := ((modes .strict).2.2 cause "0x_1f" false hw).mp hc
  have ho : runDecode files (decode none .lenient) =
      .ok "add:\n  rd = 15 (0xf)\nld:\n  rs = 7 (0x7)\n" := by decide +kernel
  have hs := (modes .lenient).1.mpr ⟨_, _, _, hw, ho⟩
  have hn : runDecode files (decode (some "jmp") .lenient) = .error unknown := by decide +kernel
  refine ⟨hw, hc, hd, ((printed (.decode (decode none .strict))).2 _ _).mpr ⟨hd, rfl⟩, hs,
    shown.mpr hs, hn, ?_⟩
  -- without the name the decoding succeeds, so the name is what is missing
  refine ((named "jmp" .lenient false "0x_1f" unknown hw).mp hn).resolve_left fun h => ?_
  cases ho.symm.trans h

end CommandLine

end BitLayout
