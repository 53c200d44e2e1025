import BitLayout.Json.Magnitude
import BitLayout.Json.Scan
import BitLayout.Json.Value
import BitLayout.Text.Numeral

/-! # Numbers in JSON text

A number has a whole part without leading zeros, then an optional fraction and an
optional exponent, each with one digit at least. A number larger than the doubles
is refused.
-/

namespace BitLayout.Json

/-- A row of digits, one at least. -/
def readDigits (cs : List Char) : Except Fault (List Nat × List Char) :=
  match cs.takeWhile Char.isDigit with
  | [] => .error (faultAt cs)
  | c :: digits => .ok (Text.Numeral.decimalDigits (c :: digits), cs.dropWhile Char.isDigit)

def readWhole (cs : List Char) : Except Fault (List Nat × List Char) := do
  let (digits, rest) ← readDigits cs
  match digits with
  | 0 :: _ :: _ => .error .malformed
  | _ => .ok (digits, rest)

/-- The digits after the point, none when there is no point. -/
def readFraction : List Char → Except Fault (List Nat × List Char)
  | '.' :: rest => readDigits rest
  | rest => .ok ([], rest)

/-- The exponent, zero when there is none. -/
def readExponent : List Char → Except Fault (Int × List Char)
  | c :: rest =>
    if c = 'e' ∨ c = 'E' then
      match rest with
      | '-' :: rest => do
        let (digits, rest) ← readDigits rest
        .ok (-(Text.Numeral.value 10 digits : Int), rest)
      | '+' :: rest => do
        let (digits, rest) ← readDigits rest
        .ok ((Text.Numeral.value 10 digits : Int), rest)
      | rest => do
        let (digits, rest) ← readDigits rest
        .ok ((Text.Numeral.value 10 digits : Int), rest)
    else .ok (0, c :: rest)
  | [] => .ok (0, [])

def readUnsigned (negative : Bool) (cs : List Char) : Except Fault (Number × List Char) := do
  let (whole, rest) ← readWhole cs
  let (fraction, rest) ← readFraction rest
  let (exponent, rest) ← readExponent rest
  if Magnitude.overflows whole fraction exponent then .error .malformed
  else .ok (⟨negative, Text.Numeral.value 10 (whole ++ fraction), exponent - fraction.length⟩, rest)

def readNumber : List Char → Except Fault (Number × List Char)
  | '-' :: rest => readUnsigned true rest
  | rest => readUnsigned false rest

end BitLayout.Json
