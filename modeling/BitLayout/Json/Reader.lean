import BitLayout.Json.Numeral
import BitLayout.Json.Quoted

/-! # Reading JSON text

A value is read from left to right; the first character that cannot go on decides
the fault. Arrays and objects nest to a given depth, and the bracket that opens
one more is refused.
-/

namespace BitLayout.Json

def depthLimit : Nat := 127

variable {α : Type}

/-- The elements after the first, at most `bound` of them, up to the closing bracket. -/
def readMore (element : List Char → Except Fault (α × List Char)) (close : Char) :
    Nat → List Char → Except Fault (List α × List Char)
  | 0, _ => .error .truncated
  | bound + 1, cs =>
    match skipSpaces cs with
    | [] => .error .truncated
    | c :: rest =>
      if c = close then .ok ([], rest)
      else if c = ',' then do
        let (a, rest) ← element rest
        let (as, rest) ← readMore element close bound rest
        .ok (a :: as, rest)
      else .error .malformed

/-- The elements between the brackets, at most one more than `bound`. -/
def readElements (element : List Char → Except Fault (α × List Char)) (close : Char) (bound : Nat)
    (cs : List Char) : Except Fault (List α × List Char) :=
  match skipSpaces cs with
  | [] => .error .truncated
  | c :: rest =>
    if c = close then .ok ([], rest)
    else do
      let (a, rest) ← element (c :: rest)
      let (as, rest) ← readMore element close bound rest
      .ok (a :: as, rest)

def readMember (value : List Char → Except Fault (Json × List Char)) (cs : List Char) :
    Except Fault ((String × Json) × List Char) :=
  match skipSpaces cs with
  | '"' :: rest => do
    let (key, rest) ← readString rest
    match skipSpaces rest with
    | ':' :: rest => do
      let (v, rest) ← value rest
      .ok ((key, v), rest)
    | rest => .error (faultAt rest)
  | rest => .error (faultAt rest)

/-- A literal after its first letter. -/
def readLiteral (v : Json) (letters : List Char) (cs : List Char) :
    Except Fault (Json × List Char) :=
  (readExactly letters cs).map (v, ·)

/-- A value whose text has `bound` characters at most, nested to the given depth. -/
def readValue (bound depth : Nat) (cs : List Char) : Except Fault (Json × List Char) :=
  match skipSpaces cs with
  | 'n' :: rest => readLiteral .null ['u', 'l', 'l'] rest
  | 't' :: rest => readLiteral (.bool true) ['r', 'u', 'e'] rest
  | 'f' :: rest => readLiteral (.bool false) ['a', 'l', 's', 'e'] rest
  | '"' :: rest => (readString rest).map fun (s, rest) => (.string s, rest)
  | '[' :: rest =>
    match depth with
    | 0 => .error .malformed
    | depth + 1 =>
      (readElements (readValue bound depth) ']' bound rest).map fun (vs, rest) => (.array vs, rest)
  | '\x7b' :: rest =>
    match depth with
    | 0 => .error .malformed
    | depth + 1 =>
      (readElements (readMember (readValue bound depth)) '\x7d' bound rest).map
        fun (ms, rest) => (.object ms, rest)
  | c :: rest =>
    if c = '-' ∨ c.isDigit then (readNumber (c :: rest)).map fun (n, rest) => (.number n, rest)
    else .error .malformed
  | [] => .error .truncated

/-- The value with which a text begins. -/
def readFirst (text : String) : Except Fault (Json × List Char) :=
  readValue text.length depthLimit text.toList

def read (text : String) : Except Fault Json := do
  let (v, rest) ← readFirst text
  if (skipSpaces rest).isEmpty then .ok v else .error .malformed

end BitLayout.Json
