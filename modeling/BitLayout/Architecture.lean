import BitLayout.EncodingError
import BitLayout.Word

/-! # Architectures

An architecture is the width of the words that an instruction is made for.
-/

namespace BitLayout

/-- A width of words. -/
inductive Architecture where
  | bits8
  | bits16
  | bits32
  | bits64
deriving DecidableEq, Repr

namespace Architecture

def all : List Architecture := [bits8, bits16, bits32, bits64]

def bits : Architecture → Nat
  | bits8 => 8
  | bits16 => 16
  | bits32 => 32
  | bits64 => 64

def tag : Architecture → String
  | bits8 => "8bit"
  | bits16 => "16bit"
  | bits32 => "32bit"
  | bits64 => "64bit"

def ofTag (tag : String) : Except EncodingError Architecture :=
  match all.find? (·.tag == tag) with
  | some a => .ok a
  | none => .error (.unknownArchitecture tag)

def fits (a : Architecture) (w : Word) : Bool := w.fits a.bits

theorem tag_injective {a b : Architecture} (h : a.tag = b.tag) : a = b := by
  cases a <;> cases b <;> simp_all [tag]

theorem ofTag_eq_ok_iff {tag : String} {a : Architecture} : ofTag tag = .ok a ↔ a.tag = tag := by
  constructor
  · intro h
    unfold ofTag at h
    split at h
    · rename_i b hb
      cases h
      simpa using List.find?_some hb
    · cases h
  · rintro rfl
    cases a <;> rfl

end Architecture

end BitLayout
