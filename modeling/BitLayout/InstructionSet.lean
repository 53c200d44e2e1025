import BitLayout.Instruction.Strict
import BitLayout.Json.Reader
import BitLayout.Json.Writer
import BitLayout.Schema.Error
import BitLayout.Schema.Shape

/-! # Instruction sets

An instruction set keeps instructions under their names, in the order in which
they came in. A set is loaded record by record; the first record that fails ends
the loading. A strict loading also runs the strict check on every instruction. A
set is written as the list of its records.
-/

namespace BitLayout

/-- Instructions under their names, in the order of their arrival. -/
abbrev InstructionSet := OrderedMap Instruction

/-- Whether loading runs the strict check. -/
inductive Mode where
  | lenient
  | strict
deriving DecidableEq, Repr

namespace InstructionSet

/-- The set with a further instruction, whose name must be new. -/
def insert (s : InstructionSet) (i : Instruction) : Except Schema.Error InstructionSet :=
  if (s.get? i.name).isSome then .error (.duplicateInstruction i.name)
  else .ok (s.set i.name i)

def require (s : InstructionSet) (name : String) : Except Schema.Error Instruction :=
  match s.get? name with
  | some i => .ok i
  | none => .error (.unknownInstruction name)

def convert (mode : Mode) (r : Schema.Record) : Except EncodingError Instruction := do
  let i ← r.toInstruction
  match mode with
  | .lenient => .ok i
  | .strict => do
    i.checkStrict
    .ok i

def add (mode : Mode) (s : InstructionSet) (r : Schema.Record) :
    Except Schema.Error InstructionSet := do
  let i ← (convert mode r).mapError (.encoding r.name)
  s.insert i

def ofRecords (mode : Mode) (records : List Schema.Record) :
    Except Schema.Error InstructionSet :=
  records.foldlM (add mode) OrderedMap.empty

def toRecords (s : InstructionSet) : List Schema.Record :=
  s.values.map Schema.Record.ofInstruction

/-- The strict check of each instruction, stopping at the first failure. -/
def checkStrict (s : InstructionSet) : Except Schema.Error Unit :=
  s.values.forM fun i => i.checkStrict.mapError (.encoding i.name)

def recordsOfText (text : String) : Except Schema.TextFault (List Schema.Record) := do
  let (v, rest) ← (Json.readFirst text).mapError .json
  match Schema.documentOf? v with
  | none => .error .shape
  | some records =>
    if (Json.skipSpaces rest).isEmpty then .ok records else .error (.json .malformed)

def ofText (mode : Mode) (text : String) : Except Schema.Error InstructionSet := do
  let records ← (recordsOfText text).mapError .badText
  ofRecords mode records

def toText (s : InstructionSet) : String :=
  Json.text (.array (s.toRecords.map Schema.Record.toJson))

def reload (mode : Mode) (s : InstructionSet) : Except Schema.Error InstructionSet :=
  ofText mode s.toText

inductive Edit where
  | insert (instruction : Instruction)
  | load (mode : Mode) (text : String)
deriving DecidableEq, Repr

def edit (s : InstructionSet) : Edit → Except Schema.Error InstructionSet
  | .insert i => s.insert i
  | .load mode text => ofText mode text

def perform (s : InstructionSet) (e : Edit) : InstructionSet × Except Schema.Error Unit :=
  match s.edit e with
  | .ok t => (t, .ok ())
  | .error cause => (s, .error cause)

end InstructionSet

end BitLayout
