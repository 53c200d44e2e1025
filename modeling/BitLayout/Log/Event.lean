import BitLayout.Architecture
import BitLayout.Text.Control

/-! # Log events

An event is something that happens while a schema is loaded or a word is decoded.
Its level, the part of the program it belongs to and its wording are functions of
the event. Levels are ordered by detail, errors first. In a log line the wording
cannot steer a terminal.
-/

namespace BitLayout.Log

open Text.Numeral (writeDecimal writeHex)

inductive Level where
  | error
  | warn
  | info
  | debug
  | trace
deriving DecidableEq, Repr

def Level.rank : Level → Nat
  | .error => 1
  | .warn => 2
  | .info => 3
  | .debug => 4
  | .trace => 5

def Level.label : Level → String
  | .error => "ERROR"
  | .warn => "WARN"
  | .info => "INFO"
  | .debug => "DEBUG"
  | .trace => "TRACE"

inductive Event where
  | parsed (source : String) (slices : Nat)
  | created (name : String) (architecture : Architecture) (parameters : Nat)
  | loaded (count : Nat) (path : String)
  | tooWide (word : Word) (architecture : Architecture) (name : String)
  | decoding (word : Word) (name : String)
deriving DecidableEq, Repr

namespace Event

def level : Event → Level
  | parsed _ _ => .trace
  | created _ _ _ => .debug
  | loaded _ _ => .debug
  | tooWide _ _ _ => .warn
  | decoding _ _ => .trace

def target : Event → String
  | parsed _ _ => "procgen_encoding::parameter"
  | created _ _ _ => "procgen_encoding::instruction"
  | loaded _ _ => "procgen_schema::instruction_set"
  | tooWide _ _ _ => "procgen_cli::commands::decode"
  | decoding _ _ => "procgen_encoding::instruction"

def message : Event → String
  | parsed source slices =>
    "Parsed \"" ++ source ++ "\" into " ++ writeDecimal slices ++ " sub-parameters"
  | created name architecture parameters =>
    "Created instruction " ++ name ++ " (" ++ architecture.tag ++ ") with " ++
      writeDecimal parameters ++ " parameters"
  | loaded count path => "Loaded " ++ writeDecimal count ++ " instructions from " ++ path
  | tooWide word architecture name =>
    "Word " ++ writeHex word.toNat ++ " is wider than the " ++ architecture.tag ++
      " architecture of " ++ name
  | decoding word name => "Decoding " ++ writeHex word.toNat ++ " as " ++ name

/-- The names of the data that an event carries: its wording alone. -/
def fields (_ : Event) : List String := ["message"]

/-- The line of an event, with the terminal controls of its wording disarmed. -/
def line (e : Event) : String :=
  e.level.label ++ " " ++ e.target ++ ": " ++ Text.disarm e.message

end Event

end BitLayout.Log
