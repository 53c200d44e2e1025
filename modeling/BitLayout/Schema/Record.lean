import BitLayout.Instruction

/-! # Schema records

A record is an instruction as plain data: its texts, and nothing that is derived
from them. Turning a record into an instruction checks it; turning the
instruction back gives the same record.
-/

namespace BitLayout.Schema

/-- A parameter as plain data. -/
structure ParameterRecord where
  name : String
  source : String
  description : Option String
deriving DecidableEq, Repr

/-- An instruction as plain data. -/
structure Record where
  name : String
  architecture : String
  description : Option String
  parameters : List ParameterRecord
deriving DecidableEq, Repr

def ParameterRecord.toParameter (r : ParameterRecord) : Except EncodingError Parameter :=
  Parameter.make r.name r.source r.description

def Record.toInstruction (r : Record) : Except EncodingError Instruction := do
  let parameters ← r.parameters.mapM ParameterRecord.toParameter
  Instruction.make r.name r.description parameters r.architecture

def ParameterRecord.ofParameter (p : Parameter) : ParameterRecord :=
  ⟨p.name, p.source, p.description⟩

def Record.ofInstruction (i : Instruction) : Record :=
  ⟨i.name, i.architecture.tag, i.description, i.parameters.map ParameterRecord.ofParameter⟩

end BitLayout.Schema
