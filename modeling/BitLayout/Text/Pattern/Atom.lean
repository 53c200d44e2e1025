import BitLayout.Text.Numeral
import BitLayout.Text.Pattern.Mode

/-! # Atoms of a pattern

An atom matches a single character or a place between two. A backslash begins an
atom of several letters, or takes its meaning from a character of punctuation.

A matcher has no tables of characters: it cannot run a pattern that asks for the
class, a property or the other case of characters. Nor does it match a part of a
character, so in a mode that matches bytes an atom stays within ASCII.
-/

namespace BitLayout.Text.Pattern

/-- The smallest part of a pattern: a character, which two digits may name as a byte; a kind of
characters (digits, blanks or letters); a property; the edge of the text or of a word. -/
inductive Atom where
  | char (c : Char) (isByte : Bool)
  | kind (negated : Bool)
  | property
  | edge (ofWord : Bool)
deriving DecidableEq, Repr

def readCode? (m : Mode) : Nat → Nat → List Char → Option (Char × List Char)
  | 0, v, cs => if v.isValidChar then some (Char.ofNat v, cs) else none
  | digits + 1, v, cs =>
    match m.skip cs with
    | [] => none
    | c :: cs => (Numeral.digitIn? 16 c).bind fun d => readCode? m digits (v * 16 + d) cs

/-- The property that a letter names; a longer name stands in braces, which never close. -/
def readProperty? (m : Mode) (cs : List Char) : Option (Atom × List Char) :=
  match m.skip cs with
  | [] => none
  | c :: rest => if c == '\\' || c == '\x7b' then none else some (.property, rest)

def control? : Char → Option Char
  | 'a' => some '\x07'
  | 't' => some '\t'
  | 'n' => some '\n'
  | 'v' => some '\x0b'
  | 'f' => some '\x0c'
  | 'r' => some '\r'
  | _ => none

def readEscape? (m : Mode) : List Char → Option (Atom × List Char)
  | [] => none
  | 'x' :: cs => (readCode? m 2 0 cs).map fun (c, rest) => (.char c true, rest)
  | 'u' :: cs => (readCode? m 4 0 cs).map fun (c, rest) => (.char c false, rest)
  | 'U' :: cs => (readCode? m 8 0 cs).map fun (c, rest) => (.char c false, rest)
  | c :: cs =>
    if ['p', 'P'].contains c then readProperty? m cs
    else if ['d', 's', 'w'].contains c then some (.kind false, cs)
    else if ['D', 'S', 'W'].contains c then some (.kind true, cs)
    else if ['A', 'z'].contains c then some (.edge false, cs)
    else if ['b', 'B', '<', '>'].contains c then some (.edge true, cs)
    else if c.toNat < 0x80 && !c.isAlphanum then some (.char c false, cs)
    else (control? c).map fun c => (.char c false, cs)

/-- The test that a matcher can tell a class of ASCII from the characters outside. -/
def Mode.allowsClass (m : Mode) (negated : Bool) : Bool := if m.wide then !m.folded else !negated

/-- The test that a matcher can run an atom that stands by itself. -/
def Atom.isRunnable (m : Mode) : Atom → Bool
  | char c isByte => if m.wide then !m.folded else !isByte || c.toNat < 0x80
  | kind negated => !m.wide && !negated
  | property => false
  | edge ofWord => !(m.wide && ofWord)

/-- The test that an atom may stand between brackets and a matcher can run it there. -/
def Atom.isMember (m : Mode) : Atom → Bool
  | char c _ => if m.wide then !m.folded else c.toNat < 0x80
  | kind negated => !m.wide && !negated
  | property => false
  | edge _ => false

end BitLayout.Text.Pattern
