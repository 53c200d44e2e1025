import BitLayout.Json.Quoted
import BitLayout.Json.Value
import BitLayout.Text.Numeral

/-! # Writing JSON text

Each element of an array and each member of an object stands on a line of its
own, two spaces further in than its container. Empty containers stay on one line.
-/

namespace BitLayout.Json

def newLine (depth : Nat) : List Char := '\n' :: List.replicate (2 * depth) ' '

def writeInt (i : Int) : List Char :=
  if i < 0 then '-' :: Nat.toDigits 10 i.natAbs else Nat.toDigits 10 i.natAbs

/-- A number in writing; the exponent is left out when it is zero. -/
def writeNumber (n : Number) : List Char :=
  (if n.negative then ['-'] else []) ++ Nat.toDigits 10 n.significand ++
    (if n.exponent = 0 then [] else 'e' :: writeInt n.exponent)

mutual

/-- A value in writing, inside `depth` containers. -/
def write (depth : Nat) : Json → List Char
  | .null => ['n', 'u', 'l', 'l']
  | .bool true => ['t', 'r', 'u', 'e']
  | .bool false => ['f', 'a', 'l', 's', 'e']
  | .number n => writeNumber n
  | .string s => writeString s
  | .array [] => ['[', ']']
  | .array (v :: vs) =>
    '[' :: (newLine (depth + 1) ++ write (depth + 1) v ++ writeItems (depth + 1) vs ++
      newLine depth ++ [']'])
  | .object [] => ['\x7b', '\x7d']
  | .object ((key, v) :: ms) =>
    '\x7b' :: (newLine (depth + 1) ++ writeString key ++ [':', ' '] ++ write (depth + 1) v ++
      writeMembers (depth + 1) ms ++ newLine depth ++ ['\x7d'])

def writeItems (depth : Nat) : List Json → List Char
  | [] => []
  | v :: vs => ',' :: (newLine depth ++ write depth v ++ writeItems depth vs)

def writeMembers (depth : Nat) : List (String × Json) → List Char
  | [] => []
  | (key, v) :: ms =>
    ',' :: (newLine depth ++ writeString key ++ [':', ' '] ++ write depth v ++
      writeMembers depth ms)

end

def text (v : Json) : String := String.ofList (write 0 v)

end BitLayout.Json
