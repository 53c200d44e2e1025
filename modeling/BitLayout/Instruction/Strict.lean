import BitLayout.Instruction

/-! # Strict instructions

The strict check refuses what building an instruction lets pass: a range that
leaves the architecture, and a bit of the word that one parameter reads twice.
The slices of a parameter are taken in textual order and the first fault is
reported. Fixed bits read nothing and are never at fault.
-/

namespace BitLayout

/-- The first fault of a layout whose earlier slices have read the bits of `seen`. -/
def Layout.strictFaultAfter? (parameter : String) (bits : Nat) (seen : Word) :
    Layout → Option EncodingError
  | [] => none
  | ⟨_, .const _ _⟩ :: rest => strictFaultAfter? parameter bits seen rest
  | ⟨_, .bits first last⟩ :: rest =>
    if bits ≤ last then some (.bitOutside parameter last bits)
    else
      match (seen &&& Word.span first last).lowestBit? with
      | some bit => some (.bitRepeated parameter bit)
      | none => strictFaultAfter? parameter bits (seen ||| Word.span first last) rest

def Parameter.strictFault? (p : Parameter) (a : Architecture) : Option EncodingError :=
  p.layout.strictFaultAfter? p.name a.bits 0

def Instruction.strictFault? (i : Instruction) : Option EncodingError :=
  i.parameters.findSome? (·.strictFault? i.architecture)

def Instruction.checkStrict (i : Instruction) : Except EncodingError Unit :=
  match i.strictFault? with
  | some fault => .error fault
  | none => .ok ()

end BitLayout
