import BitLayout.InstructionSet
import BitLayout.Log.Event

/-! # The events of a loading

Every parameter that is accepted and every instruction that is built leaves an
event. The events end with the record that fails; a loading that succeeds closes
with the number of instructions.
-/

namespace BitLayout.Log

/-- The events of the parameters up to the first that is refused. -/
def ofParameters : List Schema.ParameterRecord → List Event
  | [] => []
  | r :: rest =>
    match r.toParameter with
    | .ok p => .parsed p.source p.layout.length :: ofParameters rest
    | .error _ => []

def ofRecord (r : Schema.Record) : List Event :=
  ofParameters r.parameters ++
    match r.toInstruction with
    | .ok i => [.created i.name i.architecture i.parameters.length]
    | .error _ => []

def ofRecords (mode : Mode) (s : InstructionSet) : List Schema.Record → List Event
  | [] => []
  | r :: rest =>
    ofRecord r ++
      match s.add mode r with
      | .ok t => ofRecords mode t rest
      | .error _ => []

def ofLoading (mode : Mode) (path text : String) : List Event :=
  match InstructionSet.recordsOfText text with
  | .error _ => []
  | .ok records =>
    ofRecords mode OrderedMap.empty records ++
      match InstructionSet.ofRecords mode records with
      | .ok s => [.loaded s.size path]
      | .error _ => []

end BitLayout.Log
