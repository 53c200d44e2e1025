import BitLayout.EncodingError
import BitLayout.Json.Scan

/-! # Schema errors

What can be wrong with a schema: its file, its text, one of its records, or a
name that occurs twice or not at all. An error may have a cause of its own, whose
wording follows it in a report.
-/

namespace BitLayout.Schema

/-- Why a file does not give a text. -/
inductive ReadFault where
  | missing
  | notDirectory
  | isDirectory
  | nameTooLong
  | nulInName
  | notText
  | other (text : String)
deriving DecidableEq, Repr

def ReadFault.message : ReadFault → String
  | .missing => "No such file or directory (os error 2)"
  | .notDirectory => "Not a directory (os error 20)"
  | .isDirectory => "Is a directory (os error 21)"
  | .nameTooLong => "File name too long (os error 36)"
  | .nulInName => "file name contained an unexpected NUL byte"
  | .notText => "stream did not contain valid UTF-8"
  | .other text => text

/-- Why a text is not a document of records. -/
inductive TextFault where
  | json (fault : Json.Fault)
  | shape
deriving DecidableEq, Repr

def TextFault.message : TextFault → String
  | .json fault => fault.message
  | .shape => "data did not match any variant of untagged enum Document"

inductive Error where
  | unreadable (path : String) (cause : ReadFault)
  | badText (cause : TextFault)
  | encoding (instruction : String) (cause : EncodingError)
  | duplicateInstruction (name : String)
  | unknownInstruction (name : String)
deriving DecidableEq, Repr

def Error.message : Error → String
  | .unreadable path cause => "Failed to read schema " ++ path ++ ": " ++ cause.message
  | .badText cause => "Malformed schema: " ++ cause.message
  | .encoding instruction cause => "Instruction \"" ++ instruction ++ "\": " ++ cause.message
  | .duplicateInstruction name => "Instruction \"" ++ name ++ "\" is defined more than once"
  | .unknownInstruction name => "Unknown instruction \"" ++ name ++ "\""

def Error.cause? : Error → Option String
  | .unreadable _ cause => some cause.message
  | .badText cause => some cause.message
  | .encoding _ cause => some cause.message
  | .duplicateInstruction _ => none
  | .unknownInstruction _ => none

/-- The error in words, its cause after it. -/
def Error.chain (e : Error) : List String := e.message :: e.cause?.toList

end BitLayout.Schema
