/-! # JSON values

A number keeps the decimal digits it is written with: `significand` times ten to
the `exponent`. An object keeps its members in order, and keys that occur twice.
-/

namespace BitLayout

/-- A decimal number: `significand` times ten to the `exponent`, below zero if `negative`. -/
structure Json.Number where
  negative : Bool
  significand : Nat
  exponent : Int
deriving DecidableEq, Repr

inductive Json where
  | null
  | bool (b : Bool)
  | number (n : Json.Number)
  | string (s : String)
  | array (items : List Json)
  | object (members : List (String × Json))
deriving Repr

namespace Json

def ofNat (n : Nat) : Json := number ⟨false, n, 0⟩

end Json

end BitLayout
