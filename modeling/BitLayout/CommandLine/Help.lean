import BitLayout.CommandLine.Grammar

/-! # Help

The pages that the program prints about itself, and the line with which it
refuses a command line.
-/

namespace BitLayout.CommandLine

def versionLine : String := "procgen 0.1.0\n"

def programPage : String :=
  "Usage: procgen [OPTIONS] <COMMAND>\n\n" ++
  "Commands:\n" ++
  "  decode  Decode a raw instruction word into named parameter values\n" ++
  "  check   Load a schema and report whether every instruction is valid\n" ++
  "  show    Print the sub-parameters every parameter is assembled from\n" ++
  "  help    Print this message or the help of the given subcommand(s)\n\n" ++
  "Options:\n" ++
  "  -v, --verbose  Log at debug level unless RUST_LOG says otherwise\n" ++
  "  -h, --help     Print help\n" ++
  "  -V, --version  Print version\n"

def decodePage : String :=
  "Decode a raw instruction word into named parameter values\n\n" ++
  "Usage: procgen decode [OPTIONS] --schema <SCHEMA> <WORD>\n\n" ++
  "Arguments:\n" ++
  "  <WORD>  Raw instruction word, decimal or prefixed with 0x, 0o or 0b\n\n" ++
  "Options:\n" ++
  "  -s, --schema <SCHEMA>            JSON schema describing the instructions\n" ++
  "  -i, --instruction <INSTRUCTION>  Only decode with this instruction instead of every " ++
  "instruction in the schema\n" ++
  "      --strict                     Reject schemas whose ranges exceed their architecture " ++
  "or overlap\n" ++
  "      --json                       Print the decoded values as JSON\n" ++
  "  -v, --verbose                    Log at debug level unless RUST_LOG says otherwise\n" ++
  "  -h, --help                       Print help\n"

def checkPage : String :=
  "Load a schema and report whether every instruction is valid\n\n" ++
  "Usage: procgen check [OPTIONS] --schema <SCHEMA>\n\n" ++
  "Options:\n" ++
  "  -s, --schema <SCHEMA>  JSON schema describing the instructions\n" ++
  "      --strict           Also reject ranges that exceed their architecture or overlap\n" ++
  "  -v, --verbose          Log at debug level unless RUST_LOG says otherwise\n" ++
  "  -h, --help             Print help\n"

def showPage : String :=
  "Print the sub-parameters every parameter is assembled from\n\n" ++
  "Usage: procgen show [OPTIONS] --schema <SCHEMA>\n\n" ++
  "Options:\n" ++
  "  -s, --schema <SCHEMA>            JSON schema describing the instructions\n" ++
  "  -i, --instruction <INSTRUCTION>  Only show this instruction\n" ++
  "  -v, --verbose                    Log at debug level unless RUST_LOG says otherwise\n" ++
  "  -h, --help                       Print help\n"

def helpPage : String :=
  "Print this message or the help of the given subcommand(s)\n\n" ++
  "Usage: procgen help [COMMAND]...\n\n" ++
  "Arguments:\n" ++
  "  [COMMAND]...  Print help for the subcommand(s)\n"

def pageOf : Option String → String
  | some "decode" => decodePage
  | some "check" => checkPage
  | some "show" => showPage
  | some "help" => helpPage
  | _ => programPage

def Usage.message : Usage → String
  | .help _ => "help was asked for"
  | .version => "the version was asked for"
  | .helpForNothing => "a command is needed"
  | .missingSubcommand => "a command is needed"
  | .unknownSubcommand => "there is no such command"
  | .unknownArgument => "an argument is not expected"
  | .invalidValue => "the value of an option is missing or empty"
  | .tooManyValues => "an option takes no value"
  | .repeated => "an option cannot be used more than once"
  | .missingRequired => "a required argument is missing"

end BitLayout.CommandLine
