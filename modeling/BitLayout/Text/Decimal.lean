/-! # Decimal numbers

A decimal number has digits before or behind a point that may be absent, and may
end with an exponent of ten. Infinity and the number that is none are named.
-/

namespace BitLayout.Text.Decimal

def isExponent : List Char → Bool
  | [] => true
  | c :: cs =>
    let digits := if cs.head?.any (['+', '-'].contains ·) then cs.tail else cs
    (c == 'e' || c == 'E') && !digits.isEmpty && digits.all Char.isDigit

def readFraction : List Char → List Char × List Char
  | '.' :: cs => cs.span Char.isDigit
  | cs => ([], cs)

/-- The test that a text is a number written with digits and without a sign. -/
def isNumeral (cs : List Char) : Bool :=
  let (whole, rest) := cs.span Char.isDigit
  let (fraction, rest) := readFraction rest
  !(whole.isEmpty && fraction.isEmpty) && isExponent rest

/-- The test that a text is a number without a sign, names in letters of either case. -/
def isUnsigned (cs : List Char) : Bool :=
  isNumeral cs || ["inf", "infinity", "nan"].contains (String.ofList (cs.map Char.toLower))

end BitLayout.Text.Decimal
