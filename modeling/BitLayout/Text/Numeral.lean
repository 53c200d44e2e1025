/-! # Numerals

A numeral is a row of digits in a base, most significant first, with letters for
the digits from ten on. Reading below a limit goes from left to right and stops
at the first digit that is foreign to the base or passes the limit.
-/

namespace BitLayout.Text.Numeral

inductive Fault where
  | invalidDigit
  | tooLarge
deriving DecidableEq, Repr

def Fault.message : Fault → String
  | .invalidDigit => "invalid digit found in string"
  | .tooLarge => "number too large to fit in target type"

/-- The value of a digit, letters of either case counting from ten. -/
def digitValue? (c : Char) : Option Nat :=
  if '0' ≤ c ∧ c ≤ '9' then some (c.toNat - '0'.toNat)
  else if 'a' ≤ c ∧ c ≤ 'z' then some (c.toNat - 'a'.toNat + 10)
  else if 'A' ≤ c ∧ c ≤ 'Z' then some (c.toNat - 'A'.toNat + 10)
  else none

def digitIn? (base : Nat) (c : Char) : Option Nat := (digitValue? c).filter (· < base)

/-- The number that a row of digit values stands for. -/
def value (base : Nat) (digits : List Nat) : Nat := digits.foldl (fun v d => v * base + d) 0

def decimalDigits (cs : List Char) : List Nat := cs.map fun c => c.toNat - '0'.toNat

def decimal (cs : List Char) : Nat := value 10 (decimalDigits cs)

/-- The number that a row of digits stands for, after digits worth `v` have been read. -/
def readFrom (base limit : Nat) (v : Nat) : List Char → Except Fault Nat
  | [] => .ok v
  | c :: cs =>
    match digitIn? base c with
    | none => .error .invalidDigit
    | some d =>
      if v * base + d < limit then readFrom base limit (v * base + d) cs else .error .tooLarge

def read (base limit : Nat) (cs : List Char) : Except Fault Nat := readFrom base limit 0 cs

def write (base n : Nat) : String := String.ofList (Nat.toDigits base n)

def writePadded (base length n : Nat) : String :=
  String.ofList (List.leftpad length '0' (Nat.toDigits base n))

def writeDecimal (n : Nat) : String := write 10 n

def writeHex (n : Nat) : String := "0x" ++ write 16 n

end BitLayout.Text.Numeral
