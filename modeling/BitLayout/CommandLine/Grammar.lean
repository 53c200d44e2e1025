/-! # The grammar of command lines

A command line is a row of options and operands. An option has a long name and
perhaps a letter; it is a switch, or takes a value that is attached to it or
follows it. The letters of several switches may share one dash, `--` ends the
options, and a dash alone is an operand. An option may be given once.

The value of an option stays open until the next option or operand settles it, so
its faults come to light there; an unknown option is reported before them.
-/

namespace BitLayout.CommandLine

inductive Usage where
  | help (command : Option String)
  | version
  | helpForNothing
  | missingSubcommand
  | unknownSubcommand
  | unknownArgument
  | invalidValue
  | tooManyValues
  | repeated
  | missingRequired
deriving DecidableEq, Repr

inductive Role where
  | switch
  | value (mayBeEmpty : Bool)
  | help
  | version
deriving DecidableEq, Repr

/-- An option by its names and what it does. -/
structure OptionSpec where
  long : String
  letter : Option Char
  role : Role
deriving DecidableEq, Repr

/-- What a command accepts: options, a number of operands, or the name of a subcommand. -/
structure CommandSpec where
  name : String
  options : List OptionSpec
  operands : Nat
  subcommands : List String
deriving DecidableEq, Repr

/-- What has been read: settled options, an option whose value is open, and operands. -/
structure Progress where
  settled : List (String × Option String)
  waiting : Option (OptionSpec × Option String)
  operands : List String
deriving DecidableEq, Repr

inductive Argument where
  | separator
  | long (name : String) (value : Option String)
  | letters (letters : List Char)
  | plain
deriving DecidableEq, Repr

def Argument.ofText (text : String) : Argument :=
  match text.toList with
  | ['-', '-'] => .separator
  | '-' :: '-' :: body =>
    match body.span (· != '=') with
    | (name, []) => .long (String.ofList name) none
    | (name, _ :: value) => .long (String.ofList name) (some (String.ofList value))
  | '-' :: c :: cs => .letters (c :: cs)
  | _ => .plain

namespace Progress

def start : Progress := ⟨[], none, []⟩

def needsValue (p : Progress) : Bool :=
  match p.waiting with
  | some (_, none) => true
  | _ => false

def has (p : Progress) (long : String) : Bool := (p.settled.lookup long).isSome

def value? (p : Progress) (long : String) : Option String := (p.settled.lookup long).join

def accept (p : Progress) (o : OptionSpec) (value : String) : Except Usage Progress :=
  if p.has o.long then .error .repeated
  else if value.isEmpty && o.role == .value false then .error .invalidValue
  else .ok { p with settled := p.settled ++ [(o.long, some value)] }

def settle (p : Progress) : Except Usage Progress :=
  match p.waiting with
  | none => .ok p
  | some (_, none) => .error .invalidValue
  | some (o, some value) => { p with waiting := none }.accept o value

def attach (p : Progress) (o : OptionSpec) (value : String) : Except Usage Progress := do
  (← p.settle).accept o value

def await (p : Progress) (o : OptionSpec) : Except Usage Progress := do
  .ok { (← p.settle) with waiting := some (o, none) }

def turnOn (p : Progress) (command : String) (o : OptionSpec) : Except Usage Progress := do
  let p ← p.settle
  match o.role with
  | .help => .error (.help (some command))
  | .version => .error .version
  | _ =>
    if p.has o.long then .error .repeated
    else .ok { p with settled := p.settled ++ [(o.long, none)] }

def long (p : Progress) (spec : CommandSpec) (name : String) (value : Option String) :
    Except Usage Progress :=
  match spec.options.find? (·.long == name) with
  | none => .error .unknownArgument
  | some o =>
    match o.role, value with
    | .value _, some v => p.attach o v
    | .value _, none => p.await o
    | _, some _ => .error .tooManyValues
    | _, none => p.turnOn spec.name o

/-- The progress after a row of letters; what follows the letter of a value is the value. -/
def letters (p : Progress) (spec : CommandSpec) : List Char → Except Usage Progress
  | [] => .ok p
  | c :: rest =>
    match spec.options.find? (·.letter == some c) with
    | none => .error .unknownArgument
    | some o =>
      match o.role, rest with
      | .value _, [] => p.await o
      | .value _, '=' :: value => p.attach o (String.ofList value)
      | .value _, value => p.attach o (String.ofList value)
      | _, rest => do letters (← p.turnOn spec.name o) spec rest

/-- The progress after an operand, `ended` telling whether the options have ended. -/
def operand (p : Progress) (spec : CommandSpec) (ended : Bool) (text : String) :
    Except Usage Progress :=
  if p.operands.length < spec.operands then do
    let p ← p.settle
    .ok { p with operands := p.operands ++ [text] }
  else if spec.subcommands.isEmpty || (ended && spec.subcommands.contains text) then
    .error .unknownArgument
  else .error .unknownSubcommand

def plain (p : Progress) (spec : CommandSpec) (text : String) : Except Usage Progress :=
  match p.waiting with
  | some (o, none) => .ok { p with waiting := some (o, some text) }
  | _ => p.operand spec false text

end Progress

/-- What the arguments of a command amount to, and the subcommand at which they stop. -/
def CommandSpec.scan (spec : CommandSpec) (ended : Bool) (p : Progress) :
    List String → Except Usage (Progress × Option (String × List String))
  | [] => do .ok (← p.settle, none)
  | text :: rest =>
    if ended then do scan spec true (← p.operand spec true text) rest
    else if !p.needsValue && spec.subcommands.contains text then
      .ok (p, some (text, rest))
    else
      match Argument.ofText text with
      | .separator => scan spec true p rest
      | .long name value => do scan spec false (← p.long spec name value) rest
      | .letters cs => do scan spec false (← p.letters spec cs) rest
      | .plain => do scan spec false (← p.plain spec text) rest

end BitLayout.CommandLine
