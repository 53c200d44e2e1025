import BitLayout.CommandLine.Program

/-! # The executable

Reads the arguments, the log setting and the schema file, and prints what the
run leaves behind.
-/

namespace BitLayout.CommandLine

open Schema (ReadFault)

def faultOf : IO.Error → ReadFault
  | .noFileOrDirectory _ _ _ => .missing
  | .inappropriateType (some _) _ _ => .notDirectory
  | .inappropriateType none _ _ => .isDirectory
  | .invalidArgument _ _ _ => .nameTooLong
  | .permissionDenied _ _ _ => .other "Permission denied (os error 13)"
  | error => .other (toString error)

def readFile (path : String) : IO (Except ReadFault String) := do
  if path.toList.contains '\x00' then pure (.error .nulInName)
  else
    match ← (IO.FS.readBinFile path).toBaseIO with
    | .ok bytes =>
      match String.fromUTF8? bytes with
      | some text => pure (.ok text)
      | none => pure (.error .notText)
    | .error error => pure (.error (faultOf error))

def Command.schema : Command → String
  | decode o => o.schema
  | check schema _ => schema
  | present schema _ => schema

def readSchema (args : List String) : IO (Except ReadFault String) :=
  match Invocation.ofArguments args with
  | .ok i => readFile i.command.schema
  | .error _ => pure (.error .missing)

end BitLayout.CommandLine

open BitLayout.CommandLine in
def main (args : List String) : IO UInt32 := do
  let content ← readSchema args
  let run := runProgram args (← IO.getEnv "RUST_LOG") fun _ => content
  for line in run.stderr do
    IO.eprintln line
  IO.print run.stdout
  pure (UInt32.ofNat run.exit)
