import BitLayout.Piece

/-! # Slices

A slice is a piece together with its place in an assembled value: the number of
bits that stand below it.
-/

namespace BitLayout

open Text.Numeral (writeDecimal)

/-- A piece of a value, `shift` bits above the lowest. -/
structure Slice where
  shift : Nat
  piece : Piece
deriving DecidableEq, Repr

namespace Slice

def length (s : Slice) : Nat := s.piece.length

def mask? (s : Slice) : Option Word := s.piece.mask?

/-- What the slice contributes for a word, before it is moved to its place. -/
def unshifted (s : Slice) (w : Word) : Word := s.piece.value w

def value (s : Slice) (w : Word) : Word := (s.unshifted w).shiftUp s.shift

def ofToken (token : String) (shift : Nat) : Except EncodingError Slice :=
  (Piece.ofToken token).map (⟨shift, ·⟩)

def display (s : Slice) : String :=
  match s.piece with
  | .bits first last =>
    "Variable(shift_by=" ++ writeDecimal s.shift ++ ", start=" ++ writeDecimal first ++ ", end=" ++
      writeDecimal last ++ ")"
  | .const length number =>
    "Static(shift_by=" ++ writeDecimal s.shift ++ ", length=" ++ writeDecimal length ++
      ", number=" ++ writeDecimal number.toNat ++ ")"

end Slice

end BitLayout
