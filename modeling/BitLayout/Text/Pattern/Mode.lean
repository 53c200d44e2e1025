import BitLayout.Text.Blank

/-! # Modes of a pattern

Flags inside a pattern change how the text behind them is read. Three of them
decide whether a text is a pattern at all: whether letters of both cases are
alike, whether characters are matched or bytes, and whether blanks and comments
are passed over. A comment runs from a number sign to the end of the line.
-/

namespace BitLayout.Text.Pattern

structure Mode where
  folded : Bool
  wide : Bool
  spaced : Bool
deriving DecidableEq, Repr

def skipFrom (inComment : Bool) : List Char → List Char
  | [] => []
  | c :: cs =>
    if inComment then skipFrom (c != '\n') cs
    else if c == '#' then skipFrom true cs
    else if isBlank c then skipFrom false cs
    else c :: cs

/-- The character that comes up next; of a comment its sign alone is passed over. -/
def peekFrom? (inComment : Bool) : List Char → Option Char
  | [] => none
  | c :: cs =>
    if isBlank c then peekFrom? inComment cs
    else if !inComment && c == '#' then peekFrom? true cs
    else some c

def flagLetters : List Char := ['i', 'm', 's', 'u', 'x', 'R', 'U']

/-- The test that letters set flags, those behind a dash being taken away. -/
def areFlags (letters : List Char) : Bool :=
  letters.all (fun c => c == '-' || flagLetters.contains c) &&
    letters.eraseDups == letters && letters.getLast? != some '-'

/-- The state of a flag behind letters that may set it or take it away. -/
def flagAfter (letters : List Char) (flag : Char) (before : Bool) : Bool :=
  if (letters.takeWhile (· != '-')).contains flag then true
  else if letters.contains flag then false
  else before

namespace Mode

def initial : Mode := ⟨false, true, false⟩

def after (m : Mode) (letters : List Char) : Mode :=
  ⟨flagAfter letters 'i' m.folded, flagAfter letters 'u' m.wide, flagAfter letters 'x' m.spaced⟩

def skip (m : Mode) (cs : List Char) : List Char := if m.spaced then skipFrom false cs else cs

def peek? (m : Mode) (cs : List Char) : Option Char :=
  if m.spaced then peekFrom? false cs else cs.head?

end Mode

end BitLayout.Text.Pattern
