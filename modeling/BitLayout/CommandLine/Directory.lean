import BitLayout.Schema.Error

/-! # Directories

A directory is a row of entries under paths relative to it. A path is followed
name by name: an empty name and a dot stay, two dots go up, and every other name
must be there. Only a directory can be passed through. What lies above the
directory is unknown and holds nothing. A path that begins with a slash starts at
the root of the system instead.
-/

namespace BitLayout.CommandLine

open Schema (ReadFault)

/-- A file by its bytes, or a directory. -/
inductive Entry where
  | file (bytes : ByteArray)
  | directory

abbrev Directory := List (String × Entry)

def namesOf (path : String) : List String := (path.toList.splitOn '/').map String.ofList

/-- The greatest number of bytes of one name. -/
def nameLimit : Nat := 255

/-- The greatest number of bytes of a path. -/
def pathLimit : Nat := 4095

/-- A place that has been reached: one in the directory, or one above it. -/
inductive Place where
  | inside (names : List String)
  | above
deriving DecidableEq, Repr

/-- What stands at a place of the directory, a part of an entry's path being a directory. -/
def Directory.entry? (d : Directory) (names : List String) : Option Entry :=
  if names.isEmpty then some .directory
  else
    match d.find? fun e => namesOf e.1 == names with
    | some e => some e.2
    | none => if d.any fun e => names.isPrefixOf (namesOf e.1) then some .directory else none

def Directory.enter (d : Directory) (place : Place) (name : String) : Except ReadFault Place :=
  if name == "" || name == "." then .ok place
  else if nameLimit < name.utf8ByteSize then .error .nameTooLong
  else
    match place with
    | .above => if name == ".." then .ok .above else .error .missing
    | .inside names =>
      if name == ".." then .ok (if names.isEmpty then .above else .inside names.dropLast)
      else if (d.entry? (names ++ [name])).isSome then .ok (.inside (names ++ [name]))
      else .error .missing

def Directory.at (d : Directory) : Place → Entry
  | .above => .directory
  | .inside names => (d.entry? names).getD .directory

def Directory.follow (d : Directory) (place : Place) : List String → Except ReadFault Entry
  | [] => .ok (d.at place)
  | name :: rest =>
    match d.at place with
    | .file _ => .error .notDirectory
    | .directory => do follow d (← d.enter place name) rest

/-- What every system has at its root: some directories, and the null device, which is empty. -/
def system : Directory :=
  ("dev/null", .file ByteArray.empty) ::
    ["bin", "boot", "etc", "lib", "media", "mnt", "opt", "proc", "run", "sbin", "srv", "sys", "tmp",
      "usr", "var"].map (·, .directory)

/-- The directory from which a path starts: a slash in front leads to the root of the system. -/
def Directory.startOf (d : Directory) (path : String) : Directory :=
  if path.startsWith "/" then system else d

def Directory.read (d : Directory) (path : String) : Except ReadFault String := do
  if path.toList.contains '\x00' then .error .nulInName
  else if path.isEmpty then .error .missing
  else if pathLimit < path.utf8ByteSize then .error .nameTooLong
  else
    match ← (d.startOf path).follow (.inside []) (namesOf path) with
    | .directory => .error .isDirectory
    | .file bytes =>
      match String.fromUTF8? bytes with
      | some text => .ok text
      | none => .error .notText

end BitLayout.CommandLine
