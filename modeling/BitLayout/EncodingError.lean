import BitLayout.Text.Numeral

/-! # Encoding errors

What can be wrong with a description of an encoding. An error is a cause together
with the input that was refused; its wording is a function of the cause.
-/

namespace BitLayout

open Text.Numeral (writeDecimal)

/-- Why a token is no row of fixed bits. -/
inductive ConstFault where
  | foreignCharacter
  | tooLong
deriving DecidableEq, Repr

/-- Why a token is no range of bits. -/
inductive RangeFault where
  | noSeparator
  | startNotNumber
  | endNotNumber
  | startAboveEnd
  | outOfRange
deriving DecidableEq, Repr

inductive EncodingError where
  | unknownArchitecture (tag : String)
  | repeatedParameter (name : String)
  | emptyName
  | emptySource (parameter : String)
  | badConst (token : String) (reason : ConstFault)
  | badRange (token : String) (reason : RangeFault)
  | fieldTooWide (source : String) (width : Nat)
  | bitOutside (parameter : String) (last bits : Nat)
  | bitRepeated (parameter : String) (bit : Nat)
deriving DecidableEq, Repr

def ConstFault.message : ConstFault → String
  | .foreignCharacter => "only allowed characters in static numbers are # for 0 and + for 1"
  | .tooLong => "static numbers can be at most 64 bits wide"

def RangeFault.message : RangeFault → String
  | .noSeparator => "missing '-' separator"
  | .startNotNumber => "the start of a range needs to be a non-negative integer"
  | .endNotNumber => "the end of a range needs to be a non-negative integer"
  | .startAboveEnd => "the start of a range may not be larger than the end"
  | .outOfRange => "bit index out of range, indices need to be below 64"

def EncodingError.message : EncodingError → String
  | .unknownArchitecture tag =>
    "Invalid instruction architecture \"" ++ tag ++ "\", expected one of 8bit, 16bit, 32bit, 64bit"
  | .repeatedParameter name =>
    "Parameter \"" ++ name ++ "\" cannot occur twice in the same instruction"
  | .emptyName => "Name mustn't be empty, got \"\""
  | .emptySource parameter => "Source of parameter \"" ++ parameter ++ "\" mustn't be empty"
  | .badConst token reason => "Invalid static token \"" ++ token ++ "\": " ++ reason.message
  | .badRange token reason =>
    "Invalid range token \"" ++ token ++ "\": " ++ reason.message ++
      ", ranges need to follow \"int-int\""
  | .fieldTooWide source width =>
    "Source \"" ++ source ++ "\" assembles a " ++ writeDecimal width ++
      " bit value, at most 64 bits are supported"
  | .bitOutside parameter last bits =>
    "Parameter \"" ++ parameter ++ "\" reads bit " ++ writeDecimal last ++ ", outside of the " ++
      writeDecimal bits ++ " bit architecture"
  | .bitRepeated parameter bit =>
    "Parameter \"" ++ parameter ++ "\" reads input bit " ++ writeDecimal bit ++ " more than once"

end BitLayout
