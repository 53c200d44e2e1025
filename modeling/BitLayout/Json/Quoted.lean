import BitLayout.Json.Scan
import BitLayout.Text.Numeral

/-! # Strings in JSON text

A string stands between double quotes and holds no control character below the
space. A backslash starts an escape: a letter, or `u` and the four hexadecimal
digits of a 16-bit unit. A code point above the units is written as a leading and
a trailing surrogate; a surrogate on its own is refused.
-/

namespace BitLayout.Json

def letterEscapes : List (Char × Char) :=
  [('"', '"'), ('\\', '\\'), ('/', '/'), ('b', '\x08'), ('f', '\x0c'), ('n', '\n'), ('r', '\r'),
   ('t', '\t')]

def byteCount : List Char → Nat
  | [] => 0
  | c :: rest => c.utf8Size + byteCount rest

/-- The unit that the next four characters spell; fewer than four bytes are a text cut short. -/
def readUnit (cs : List Char) : Except Fault Nat :=
  let four := cs.take 4
  match four.mapM (Text.Numeral.digitIn? 16) with
  | some digits =>
    if digits.length = 4 then .ok (Text.Numeral.value 16 digits) else .error .truncated
  | none =>
    if byteCount four < 4 then .error .truncated else .error .malformed

def isLeading (unit : Nat) : Bool := 0xd800 ≤ unit && unit < 0xdc00

def isTrailing (unit : Nat) : Bool := 0xdc00 ≤ unit && unit < 0xe000

def pairValue (leading trailing : Nat) : Nat :=
  0x10000 + (leading - 0xd800) * 0x400 + (trailing - 0xdc00)

/-- The character of an escape by units, and the number of characters that its spelling takes. -/
def readUnits (cs : List Char) : Except Fault (Char × Nat) := do
  let unit ← readUnit cs
  if isTrailing unit then .error .malformed
  else if isLeading unit then
    let rest ← readExactly ['\\', 'u'] (cs.drop 4)
    let second ← readUnit rest
    if isTrailing second then .ok (Char.ofNat (pairValue unit second), 10) else .error .malformed
  else .ok (Char.ofNat unit, 4)

/-- The character of an escape, and the number of characters after the backslash. -/
def readEscape : List Char → Except Fault (Char × Nat)
  | [] => .error .truncated
  | 'u' :: rest => (readUnits rest).map fun (c, n) => (c, n + 1)
  | c :: _ =>
    match letterEscapes.lookup c with
    | some d => .ok (d, 1)
    | none => .error .malformed

/-- The characters of a string up to its closing quote, the first `skip` of them already read. -/
def readChars (skip : Nat) : List Char → Except Fault (List Char × List Char)
  | [] => .error .truncated
  | c :: rest =>
    match skip with
    | skip + 1 => readChars skip rest
    | 0 =>
      if c = '"' then .ok ([], rest)
      else if c = '\\' then do
        let (d, n) ← readEscape rest
        let (ds, rest) ← readChars n rest
        .ok (d :: ds, rest)
      else if c < ' ' then .error .malformed
      else do
        let (ds, rest) ← readChars 0 rest
        .ok (c :: ds, rest)

def readString (cs : List Char) : Except Fault (String × List Char) := do
  let (chars, rest) ← readChars 0 cs
  .ok (String.ofList chars, rest)

def letterOf? : Char → Option Char
  | '"' => some '"'
  | '\\' => some '\\'
  | '\x08' => some 'b'
  | '\x0c' => some 'f'
  | '\n' => some 'n'
  | '\r' => some 'r'
  | '\t' => some 't'
  | _ => none

def writeChar (c : Char) : List Char :=
  match letterOf? c with
  | some letter => ['\\', letter]
  | none =>
    if c < ' ' then '\\' :: 'u' :: List.leftpad 4 '0' (Nat.toDigits 16 c.toNat) else [c]

def writeString (s : String) : List Char := '"' :: (s.toList.flatMap writeChar ++ ['"'])

end BitLayout.Json
