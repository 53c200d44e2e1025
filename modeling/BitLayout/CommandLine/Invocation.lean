import BitLayout.CommandLine.Grammar
import BitLayout.InstructionSet

/-! # Invocations

The program has three commands. `decode` takes a word apart, `check` loads a
schema, `show` prints how the parameters are laid out. Each needs a schema;
`decode` also needs a word. The switch for more detail may stand before the
command or after it.
-/

namespace BitLayout.CommandLine

structure DecodeOptions where
  schema : String
  instruction : Option String
  mode : Mode
  json : Bool
  word : String
deriving DecidableEq, Repr

inductive Command where
  | decode (options : DecodeOptions)
  | check (schema : String) (mode : Mode)
  | present (schema : String) (instruction : Option String)
deriving DecidableEq, Repr

/-- A command, and whether more detail is wanted in the log. -/
structure Invocation where
  verbose : Bool
  command : Command
deriving DecidableEq, Repr

def schemaOption : OptionSpec := ⟨"schema", some 's', .value false⟩

def instructionOption : OptionSpec := ⟨"instruction", some 'i', .value true⟩

def strictOption : OptionSpec := ⟨"strict", none, .switch⟩

def jsonOption : OptionSpec := ⟨"json", none, .switch⟩

def commonOptions : List OptionSpec := [⟨"verbose", some 'v', .switch⟩, ⟨"help", some 'h', .help⟩]

def programSpec : CommandSpec :=
  ⟨"procgen", commonOptions ++ [⟨"version", some 'V', .version⟩], 0,
    ["decode", "check", "show", "help"]⟩

def decodeSpec : CommandSpec :=
  ⟨"decode", [schemaOption, instructionOption, strictOption, jsonOption] ++ commonOptions, 1, []⟩

def checkSpec : CommandSpec := ⟨"check", [schemaOption, strictOption] ++ commonOptions, 0, []⟩

def showSpec : CommandSpec := ⟨"show", [schemaOption, instructionOption] ++ commonOptions, 0, []⟩

def Progress.mode (p : Progress) : Mode := if p.has "strict" then .strict else .lenient

def decodeOf (p : Progress) : Except Usage Command :=
  match p.value? "schema", p.operands with
  | some schema, word :: _ =>
    .ok (.decode ⟨schema, p.value? "instruction", p.mode, p.has "json", word⟩)
  | _, _ => .error .missingRequired

def checkOf (p : Progress) : Except Usage Command :=
  match p.value? "schema" with
  | some schema => .ok (.check schema p.mode)
  | none => .error .missingRequired

def presentOf (p : Progress) : Except Usage Command :=
  match p.value? "schema" with
  | some schema => .ok (.present schema (p.value? "instruction"))
  | none => .error .missingRequired

def helpOf : List String → Usage
  | [] => .help none
  | [name] =>
    if programSpec.subcommands.contains name then .help (some name) else .unknownSubcommand
  | _ :: _ :: _ => .unknownSubcommand

def invoke (verbose : Bool) (spec : CommandSpec) (build : Progress → Except Usage Command)
    (args : List String) : Except Usage Invocation := do
  let (p, _) ← spec.scan false .start args
  let command ← build p
  .ok ⟨verbose || p.has "verbose", command⟩

def Invocation.ofArguments (args : List String) : Except Usage Invocation := do
  let (p, command) ← programSpec.scan false .start args
  match command with
  | none => .error (if p.settled.isEmpty then .helpForNothing else .missingSubcommand)
  | some ("decode", rest) => invoke (p.has "verbose") decodeSpec decodeOf rest
  | some ("check", rest) => invoke (p.has "verbose") checkSpec checkOf rest
  | some ("show", rest) => invoke (p.has "verbose") showSpec presentOf rest
  | some (_, rest) => .error (helpOf rest)

end BitLayout.CommandLine
