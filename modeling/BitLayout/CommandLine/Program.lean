import BitLayout.CommandLine.Command
import BitLayout.CommandLine.Help
import BitLayout.Log.Filter

/-! # The program

A run of the program ends with an exit code, a text on standard output and lines
on standard error: the log, and after a failure the error with its causes. The
code is 0 for success, help and version, 1 for a failure, 2 for a command line
that is not understood.
-/

namespace BitLayout.CommandLine

open Text.Numeral (writeDecimal)

structure Run where
  exit : Nat
  stdout : String
  stderr : List String
deriving DecidableEq, Repr

def linesOf (text : String) : List String := (text.toList.splitOn '\n').map String.ofList

/-- The lines of a text, the first behind one opening and the others behind another. -/
def indented (first others text : String) : List String :=
  match linesOf text with
  | [] => []
  | line :: rest => (first ++ line) :: rest.map (others ++ ·)

/-- The number of a cause, in a column of five. -/
def causeNumber (n : Nat) : String :=
  String.ofList (List.leftpad 5 ' ' (Nat.toDigits 10 n)) ++ ": "

/-- The lines of the causes of an error, numbered when there are several. -/
def causeLines : List String → List String
  | [] => []
  | [cause] => ["", "Caused by:"] ++ indented "    " "    " cause
  | causes =>
    ["", "Caused by:"] ++
      (causes.zipIdx.map fun (cause, n) => indented (causeNumber n) "       " cause).flatten

def failureLines : List String → List String
  | [] => []
  | error :: causes => linesOf ("Error: " ++ error) ++ causeLines causes

def Invocation.filter (i : Invocation) : Log.Filter :=
  .upTo (if i.verbose then .debug else .warn)

/-- The filter that a setting asks for, or that of the invocation when there is no valid one. -/
def Invocation.filterWith (i : Invocation) (setting : Option String) : Log.Filter :=
  (setting.bind Log.Filter.ofText?).getD i.filter

def Invocation.run (i : Invocation) (setting : Option String) (files : Files) : Run :=
  let log := ((i.filterWith setting).lines (i.command.events files)).flatMap linesOf
  match i.command.run files with
  | .ok text => ⟨0, text, log⟩
  | .error failure => ⟨1, "", log ++ failureLines failure.chain⟩

def Usage.run : Usage → Run
  | .help command => ⟨0, pageOf command, []⟩
  | .version => ⟨0, versionLine, []⟩
  | .helpForNothing => ⟨2, "", linesOf programPage⟩
  | usage => ⟨2, "", ["error: " ++ usage.message]⟩

def runProgram (args : List String) (setting : Option String) (files : Files) : Run :=
  match Invocation.ofArguments args with
  | .ok i => i.run setting files
  | .error usage => usage.run

end BitLayout.CommandLine
