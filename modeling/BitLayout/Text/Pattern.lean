import BitLayout.Text.Alphanumeric
import BitLayout.Text.Pattern.Bracket

/-! # Patterns

A pattern is a regular expression without counted repetitions: alternatives of
rows of atoms, brackets and groups, each of which may be repeated. A group may
have a name of its own or set flags, and flags set by themselves hold up to the
end of the group that they stand in. A brace that is open is not closed again, so
it stands in no pattern outside brackets unless a backslash is before it.
-/

namespace BitLayout.Text.Pattern

/-- An open group: the mode around it, its alternatives so far, the parts of the last one, and
the depth of the part that a repetition would take. -/
structure Group where
  around : Mode
  branches : Row
  items : Row
  last : Option Nat
deriving DecidableEq, Repr

namespace Group

def opened (around : Mode) : Group := ⟨around, .empty, .empty, none⟩

def add (g : Group) (depth : Nat) : Group := ⟨g.around, g.branches, g.items.add depth, some depth⟩

/-- The group with flags set, which may not be repeated. -/
def addFlags (g : Group) : Group := ⟨g.around, g.branches, g.items.add 0, none⟩

def branch (g : Group) : Group := ⟨g.around, g.branches.add g.items.depth, .empty, none⟩

def repeat? (g : Group) : Option Group :=
  g.last.map fun d => ⟨g.around, g.branches, g.items.grow (d + 1), some (d + 1)⟩

def depth (g : Group) : Nat := (g.branches.add g.items.depth).depth

end Group

/-- What has been read of a pattern: the mode, the names of groups, the innermost group that is
open and those around it. -/
structure Progress where
  mode : Mode
  names : List (List Char)
  group : Group
  outer : List Group
deriving DecidableEq, Repr

def isName : List Char → Bool
  | [] => false
  | c :: cs =>
    (c == '_' || isAlphabetic c) &&
      cs.all fun c => isAlphanumeric c || ['_', '.', '[', ']'].contains c

namespace Progress

def initial : Progress := ⟨.initial, [], .opened .initial, []⟩

def add (p : Progress) (depth : Nat) : Progress := { p with group := p.group.add depth }

/-- One more atom, unless a matcher cannot run it. -/
def addAtom? (p : Progress) (a : Atom) : Option Progress :=
  if a.isRunnable p.mode then some (p.add 0) else none

def enter (p : Progress) (mode : Mode) : Progress :=
  { p with mode := mode, group := .opened p.mode, outer := p.group :: p.outer }

def leave? (p : Progress) : Option Progress :=
  match p.outer with
  | [] => none
  | g :: outer =>
    some { p with mode := p.group.around, group := g.add (p.group.depth + 1), outer := outer }

/-- A group with a name opened, the text beginning with the name. -/
def enterNamed? (p : Progress) (cs : List Char) : Option (Progress × List Char) :=
  match cs.span (· != '>') with
  | (name, '>' :: rest) =>
    if isName name && !p.names.contains name then
      some ({ p.enter p.mode with names := name :: p.names }, rest)
    else none
  | _ => none

def setFlags? (p : Progress) (cs : List Char) : Option (Progress × List Char) :=
  match cs.span fun c => c != ':' && c != ')' with
  | (letters, ':' :: rest) =>
    if areFlags letters then some (p.enter (p.mode.after letters), rest) else none
  | (letters, ')' :: rest) =>
    if areFlags letters && !letters.isEmpty then
      some ({ p with mode := p.mode.after letters, group := p.group.addFlags }, rest)
    else none
  | _ => none

def open? (p : Progress) (cs : List Char) : Option (Progress × List Char) :=
  match p.mode.skip cs with
  | '?' :: 'P' :: '<' :: rest => p.enterNamed? rest
  | '?' :: '<' :: rest => p.enterNamed? rest
  | '?' :: rest => p.setFlags? rest
  | rest => some (p.enter p.mode, rest)

def repeat? (p : Progress) (cs : List Char) : Option (Progress × List Char) :=
  p.group.repeat?.map fun g =>
    ({ p with group := g }, match cs with | '?' :: rest => rest | rest => rest)

/-- One more character, and more of the text behind it if the character does not stand alone. -/
def step? (p : Progress) (c : Char) (cs : List Char) : Option (Progress × List Char) :=
  match c with
  | '(' => p.open? cs
  | ')' => p.leave?.map (·, cs)
  | '|' => some ({ p with group := p.group.branch }, cs)
  | '[' => (readBracket? p.mode cs).map fun (depth, rest) => (p.add depth, rest)
  | '?' => p.repeat? cs
  | '*' => p.repeat? cs
  | '+' => p.repeat? cs
  | '\x7b' => none
  | '\\' => do
    let (a, rest) ← readEscape? p.mode cs
    let p ← p.addAtom? a
    some (p, rest)
  | '.' => if p.mode.wide then some (p.add 0, cs) else none
  | '^' => some (p.add 0, cs)
  | '$' => some (p.add 0, cs)
  | c => (p.addAtom? (.char c false)).map (·, cs)

/-- A text of less than `bound` characters read to its end. -/
def run? : Nat → Progress → List Char → Option Progress
  | 0, _, _ => none
  | bound + 1, p, cs =>
    match p.mode.skip cs with
    | [] => some p
    | c :: cs => (p.step? c cs).bind fun (p, rest) => run? bound p rest

def isDone (p : Progress) : Bool := p.outer.isEmpty && p.group.depth ≤ depthLimit

end Progress

def isPattern (text : List Char) : Bool :=
  (Progress.initial.run? (text.length + 1) text).any (·.isDone)

end BitLayout.Text.Pattern
