import BitLayout.Text.Pattern.Atom
import BitLayout.Text.Pattern.Depth

/-! # Brackets in a pattern

Brackets hold characters, ranges, named classes and further brackets, and doubled
signs between them take the common part or a difference. Dashes in front stand for
themselves, as does a closing bracket that comes first.
-/

namespace BitLayout.Text.Pattern

/-- An open bracket: the depth left of the last operator, the parts since, and whether only
dashes have come up. -/
structure Bracket where
  operand : Option Nat
  items : Row
  isFresh : Bool
deriving DecidableEq, Repr

namespace Bracket

def opened : Bracket := ⟨none, .empty, true⟩

def add (b : Bracket) (depth : Nat) : Bracket := ⟨b.operand, b.items.add depth, false⟩

def addDash (b : Bracket) : Bracket := ⟨b.operand, b.items.add 0, b.isFresh⟩

def depth (b : Bracket) : Nat :=
  match b.operand with
  | none => b.items.depth
  | some d => max d b.items.depth + 1

def operate (b : Bracket) : Bracket := ⟨some b.depth, .empty, false⟩

end Bracket

def classNames : List String :=
  ["alnum", "alpha", "ascii", "blank", "cntrl", "digit", "graph", "lower", "print", "punct",
    "space", "upper", "word", "xdigit"]

/-- A named class between its colons: whether it is negated, and the text behind it. -/
def readNamed? (negated : Bool) (cs : List Char) : Option (Bool × List Char) :=
  match cs.span (· != ':') with
  | (name, ':' :: ']' :: rest) =>
    if classNames.contains (String.ofList name) then some (negated, rest) else none
  | _ => none

def readClass? : List Char → Option (Bool × List Char)
  | ':' :: '^' :: cs => readNamed? true cs
  | ':' :: cs => readNamed? false cs
  | _ => none

/-- The text inside a bracket that has just been opened; bytes cannot be excluded. -/
def enter? (m : Mode) (cs : List Char) : Option (List Char) :=
  match m.skip cs with
  | '^' :: rest => if m.wide then some rest else none
  | rest => some rest

def readMember? (m : Mode) : List Char → Option (Atom × List Char)
  | [] => none
  | '\\' :: cs => readEscape? m cs
  | c :: cs => some (.char c false, cs)

def isRange (m : Mode) : Atom → Atom → Bool
  | .char first a, .char last b =>
    first ≤ last && (Atom.char first a).isMember m && (Atom.char last b).isMember m
  | _, _ => false

/-- The text behind the atom or the range that a text begins with. -/
def dropMember? (m : Mode) (cs : List Char) : Option (List Char) := do
  let (first, rest) ← readMember? m cs
  match m.skip rest with
  | '-' :: after =>
    if m.peek? after == some ']' || m.peek? after == some '-' then
      if first.isMember m then some ('-' :: after) else none
    else do
      let (last, rest) ← readMember? m (m.skip after)
      if isRange m first last then some rest else none
  | rest => if first.isMember m then some rest else none

/-- The depth of the outermost bracket and the text behind it, `b` being the innermost one that
is open and `outer` the others; the text between has at most `bound` characters. -/
def closeFrom? (m : Mode) : Nat → Bracket → List Bracket → List Char → Option (Nat × List Char)
  | 0, _, _, _ => none
  | bound + 1, b, outer, cs =>
    match m.skip cs with
    | [] => none
    | '[' :: rest =>
      match readClass? rest with
      | some (negated, rest) =>
        if m.allowsClass negated then closeFrom? m bound (b.add 0) outer rest else none
      | none => (enter? m rest).bind (closeFrom? m bound .opened (b :: outer))
    | ']' :: rest =>
      if b.isFresh && b.items.count == 0 then
        if (Atom.char ']' false).isMember m then closeFrom? m bound (b.add 0) outer rest else none
      else
        match outer with
        | [] => some (b.depth + 1, rest)
        | o :: outer => closeFrom? m bound (o.add (b.depth + 1)) outer rest
    | c :: rest =>
      if b.isFresh && c == '-' then
        if (Atom.char '-' false).isMember m then closeFrom? m bound b.addDash outer rest else none
      else if ['&', '-', '~'].contains c && rest.head? == some c then
        closeFrom? m bound b.operate outer rest.tail
      else (dropMember? m (c :: rest)).bind (closeFrom? m bound (b.add 0) outer)

/-- The depth of a bracket that has just been opened, and the text behind it. -/
def readBracket? (m : Mode) (cs : List Char) : Option (Nat × List Char) :=
  (enter? m cs).bind (closeFrom? m cs.length .opened [])

end BitLayout.Text.Pattern
