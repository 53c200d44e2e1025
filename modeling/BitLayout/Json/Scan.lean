/-! # Scanning JSON text

A reader takes the text from its place on and gives what it read together with
the rest. It fails in one of two ways: the text ends too early, or it breaks the
grammar.
-/

namespace BitLayout.Json

inductive Fault where
  | truncated
  | malformed
deriving DecidableEq, Repr

def Fault.message : Fault → String
  | .truncated => "<eof>"
  | .malformed => "<syntax>"

/-- The test for the four characters that may stand between tokens. -/
def isSpace (c : Char) : Bool := c == ' ' || c == '\t' || c == '\n' || c == '\r'

def skipSpaces (cs : List Char) : List Char := cs.dropWhile isSpace

/-- The fault of a text that does not go on as it has to. -/
def faultAt : List Char → Fault
  | [] => .truncated
  | _ :: _ => .malformed

/-- The text after the given characters, with which it has to begin. -/
def readExactly : List Char → List Char → Except Fault (List Char)
  | [], cs => .ok cs
  | _ :: _, [] => .error .truncated
  | e :: es, c :: cs => if c = e then readExactly es cs else .error .malformed

theorem readExactly_append (letters rest : List Char) :
    readExactly letters (letters ++ rest) = .ok rest := by
  induction letters with
  | nil => rfl
  | cons c cs ih => simp [readExactly, ih]

theorem skipSpaces_cons {c : Char} (h : isSpace c = false) (cs : List Char) :
    skipSpaces (c :: cs) = c :: cs := by
  simp [skipSpaces, h]

end BitLayout.Json
