import BitLayout.Json.Value
import BitLayout.Schema.Record

/-! # The shape of a schema document

A record is an object with a member for each part, or the array of its parts in
order. An object may have further members; a member of a part may not occur
twice. A description may be missing or null; in the array of an instruction it
has its place, in that of a parameter it comes last and may be left out. A
document is a list of records or one record.
-/

namespace BitLayout.Schema

/-- The value under a key that occurs at most once; nothing when it occurs twice. -/
def member? (members : List (String × Json)) (key : String) : Option (Option Json) :=
  match members.filter (·.1 == key) with
  | [] => some none
  | [m] => some (some m.2)
  | _ :: _ :: _ => none

/-- The value under a key that occurs exactly once. -/
def required? (members : List (String × Json)) (key : String) : Option Json :=
  (member? members key).join

def textOf? : Json → Option String
  | .string s => some s
  | _ => none

def descriptionOf? : Json → Option (Option String)
  | .null => some none
  | .string s => some (some s)
  | _ => none

def memberDescription? (members : List (String × Json)) : Option (Option String) := do
  match ← member? members "description" with
  | none => some none
  | some v => descriptionOf? v

def ParameterRecord.ofJson? : Json → Option ParameterRecord
  | .object members => do
    let name ← textOf? (← required? members "name")
    let source ← textOf? (← required? members "source")
    let description ← memberDescription? members
    some ⟨name, source, description⟩
  | .array [name, source] => do
    some ⟨← textOf? name, ← textOf? source, none⟩
  | .array [name, source, description] => do
    some ⟨← textOf? name, ← textOf? source, ← descriptionOf? description⟩
  | _ => none

def parametersOf? : Json → Option (List ParameterRecord)
  | .array items => items.mapM ParameterRecord.ofJson?
  | _ => none

def Record.ofJson? : Json → Option Record
  | .object members => do
    let name ← textOf? (← required? members "name")
    let architecture ← textOf? (← required? members "architecture")
    let description ← memberDescription? members
    let parameters ← parametersOf? (← required? members "parameters")
    some ⟨name, architecture, description, parameters⟩
  | .array [name, architecture, description, parameters] => do
    some ⟨← textOf? name, ← textOf? architecture, ← descriptionOf? description,
      ← parametersOf? parameters⟩
  | _ => none

def recordsOf? : Json → Option (List Record)
  | .array items => items.mapM Record.ofJson?
  | _ => none

/-- The records of the document that a value spells, a list being tried before one record. -/
def documentOf? (v : Json) : Option (List Record) :=
  (recordsOf? v).or ((Record.ofJson? v).map ([·]))

/-- The member of a description, left out when there is none. -/
def descriptionMember : Option String → List (String × Json)
  | none => []
  | some description => [("description", .string description)]

def ParameterRecord.toJson (r : ParameterRecord) : Json :=
  .object ([("name", .string r.name), ("source", .string r.source)] ++
    descriptionMember r.description)

def Record.toJson (r : Record) : Json :=
  .object ([("name", .string r.name), ("architecture", .string r.architecture)] ++
    descriptionMember r.description ++
    [("parameters", .array (r.parameters.map ParameterRecord.toJson))])

end BitLayout.Schema
