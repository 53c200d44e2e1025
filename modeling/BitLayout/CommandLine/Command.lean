import BitLayout.CommandLine.Invocation
import BitLayout.Log.Loading
import BitLayout.WordText

/-! # Commands

A command reads one schema file and gives the text to print, or the chain of
causes for which it fails; a failing command prints nothing. A word that is wider
than the architecture of an instruction is decoded all the same and leaves a
warning. The events of a command tell what it did in order.
-/

namespace BitLayout.CommandLine

open Text.Numeral (writeDecimal writeHex writePadded)

/-- The reading of a file by its path. -/
abbrev Files := String → Except Schema.ReadFault String

inductive Failure where
  | word (cause : WordError)
  | schema (path : String) (cause : Schema.Error)
  | selection (cause : Schema.Error)
deriving DecidableEq, Repr

def Failure.chain : Failure → List String
  | .word cause => cause.chain
  | .schema path cause => ("Failed to load schema " ++ path) :: cause.chain
  | .selection cause => cause.chain

def loadSchema (files : Files) (mode : Mode) (path : String) : Except Failure InstructionSet :=
  match files path with
  | .error cause => .error (.schema path (.unreadable path cause))
  | .ok text => (InstructionSet.ofText mode text).mapError (.schema path)

/-- The instruction of a given name, or all of them. -/
def select (s : InstructionSet) : Option String → Except Failure (List Instruction)
  | some name => ((s.require name).map ([·])).mapError .selection
  | none => .ok s.values

abbrev Decoded := OrderedMap (OrderedMap Word)

def decodeAll (instructions : List Instruction) (w : Word) : Decoded :=
  OrderedMap.ofList (instructions.map fun i => (i.name, i.decode w))

def valueLine (name : String) (value : Word) : String :=
  "  " ++ name ++ " = " ++ writeDecimal value.toNat ++ " (" ++ writeHex value.toNat ++ ")\n"

def decodedBlock (name : String) (values : OrderedMap Word) : String :=
  name ++ ":\n" ++ String.join (values.entries.map fun e => valueLine e.1 e.2)

def decodedText (d : Decoded) : String :=
  String.join (d.entries.map fun e => decodedBlock e.1 e.2)

def decodedJson (d : Decoded) : Json :=
  .object (d.entries.map fun e =>
    (e.1, .object (e.2.entries.map fun v => (v.1, Json.ofNat v.2.toNat))))

def runDecode (files : Files) (o : DecodeOptions) : Except Failure String := do
  let w ← (Word.ofText o.word).mapError .word
  let s ← loadSchema files o.mode o.schema
  let instructions ← select s o.instruction
  let decoded := decodeAll instructions w
  .ok (if o.json then (decodedJson decoded).text ++ "\n" else decodedText decoded)

def checkLine (i : Instruction) : String :=
  i.name ++ " (" ++ i.architecture.tag ++ "): " ++ writeDecimal i.parameters.length ++
    " parameters\n"

def runCheck (files : Files) (schema : String) (mode : Mode) : Except Failure String := do
  let s ← loadSchema files mode schema
  .ok (String.join (s.values.map checkLine) ++ schema ++ ": " ++ writeDecimal s.size ++
    " instructions OK\n")

def sliceLine (s : Slice) : String :=
  match s.piece with
  | .bits first last =>
    "    bits " ++ writeDecimal first ++ "..=" ++ writeDecimal last ++ " << " ++
      writeDecimal s.shift ++ "  mask " ++ writeHex (Word.span first last).toNat ++ "\n"
  | .const length number =>
    "    const 0b" ++ writePadded 2 length number.toNat ++ " << " ++ writeDecimal s.shift ++ "\n"

def parameterBlock (p : Parameter) : String :=
  "  " ++ p.name ++ " = \"" ++ p.source ++ "\" (" ++ writeDecimal p.width ++ " bits)\n" ++
    String.join (p.layout.map sliceLine)

def instructionBlock (i : Instruction) : String :=
  i.name ++ " (" ++ i.architecture.tag ++ ")" ++
    (match i.description with
      | some description => ": " ++ description
      | none => "") ++
    "\n" ++ String.join (i.parameters.map parameterBlock)

def runPresent (files : Files) (schema : String) (instruction : Option String) :
    Except Failure String := do
  let s ← loadSchema files .lenient schema
  let instructions ← select s instruction
  .ok (String.join (instructions.map instructionBlock))

def Command.run (files : Files) : Command → Except Failure String
  | decode o => runDecode files o
  | check schema mode => runCheck files schema mode
  | present schema instruction => runPresent files schema instruction

def loadingEvents (files : Files) (mode : Mode) (path : String) : List Log.Event :=
  match files path with
  | .error _ => []
  | .ok text => Log.ofLoading mode path text

/-- The warnings about instructions that are narrower than a word. -/
def warnings (instructions : List Instruction) (w : Word) : List Log.Event :=
  (instructions.filter fun i => !i.fits w).map fun i => .tooWide w i.architecture i.name

def decodingEvents (files : Files) (o : DecodeOptions) (w : Word) : List Log.Event :=
  match loadSchema files o.mode o.schema with
  | .error _ => []
  | .ok s =>
    match select s o.instruction with
    | .error _ => []
    | .ok instructions =>
      warnings instructions w ++ instructions.map fun i => .decoding w i.name

def Command.events (files : Files) : Command → List Log.Event
  | decode o =>
    match Word.ofText o.word with
    | .error _ => []
    | .ok w => loadingEvents files o.mode o.schema ++ decodingEvents files o w
  | check schema mode => loadingEvents files mode schema
  | present schema _ => loadingEvents files .lenient schema

end BitLayout.CommandLine
