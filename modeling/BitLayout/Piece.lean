import BitLayout.EncodingError
import BitLayout.Word

/-! # Pieces

A piece is what one token of a source stands for: a range of bits of the word,
written `4-7`, or a row of fixed bits, written with `#` for 0 and `+` for 1. A
token with a `#` or a `+` is read as fixed bits, any other as a range.
-/

namespace BitLayout

/-- Bits `first` to `last` of the word, or `length` fixed bits. -/
inductive Piece where
  | bits (first last : Nat)
  | const (length : Nat) (number : Word)
deriving DecidableEq, Repr

namespace Piece

def length : Piece → Nat
  | bits first last => last + 1 - first
  | const length _ => length

/-- The bits of the word that the piece reads, if it reads any. -/
def mask? : Piece → Option Word
  | bits first last => some (Word.span first last)
  | const _ _ => none

def value (w : Word) : Piece → Word
  | bits first last => (w &&& Word.span first last) >>> first
  | const _ number => number

def isFixedBit (c : Char) : Bool := c == '#' || c == '+'

/-- The number that a row of fixed bits spells, most significant first. -/
def fixedNumber (cs : List Char) : Word :=
  cs.foldl (fun number c => number <<< 1 ||| if c = '+' then 1 else 0) 0

def constOfToken (token : List Char) : Except ConstFault Piece :=
  if !token.all isFixedBit then .error .foreignCharacter
  else if wordBits < token.length then .error .tooLong
  else .ok (const token.length (fixedNumber token))

/-- The least number that is too large for one end of a range, whatever the other end. -/
def boundLimit : Nat := 0x100000000

/-- The number that one end of a range spells, `foreign` being the fault of anything else. -/
def boundOfToken (foreign : RangeFault) (cs : List Char) : Except RangeFault Nat :=
  if cs.isEmpty || !cs.all Char.isDigit then .error foreign
  else if Text.Numeral.decimal cs < boundLimit then .ok (Text.Numeral.decimal cs)
  else .error .outOfRange

def rangeOfToken (token : List Char) : Except RangeFault Piece :=
  match token.span (· != '-') with
  | (_, []) => .error .noSeparator
  | (start, _ :: stop) => do
    let first ← boundOfToken .startNotNumber start
    let last ← boundOfToken .endNotNumber stop
    if last < first then .error .startAboveEnd
    else if wordBits ≤ last then .error .outOfRange
    else .ok (bits first last)

def ofToken (token : String) : Except EncodingError Piece :=
  if token.toList.any isFixedBit then
    (constOfToken token.toList).mapError (.badConst token)
  else
    (rangeOfToken token.toList).mapError (.badRange token)

end Piece

end BitLayout
