import Mathlib.Data.List.Nodup
import BitLayout.Proofs.Assembly
import BitLayout.Proofs.BitRange

/-! # Wiring

Each bit of a value hangs on a wire of its own: a fixed bit, or a bit of the word.
The wires of a parameter are named by the tokens of its source, in textual order, and
the value is the number of the bits that they carry. So two words have the same value
exactly when they agree on the bits that are read.
-/

namespace BitLayout

/-- What one bit of a value hangs on. -/
inductive Wire where
  | fixed (b : Bool)
  | read (bit : Nat)
deriving DecidableEq, Repr

namespace Wire

def carry (w : Word) : Wire → Bool
  | fixed b => b
  | read bit => w.getLsbD bit

def bit? : Wire → Option Nat
  | fixed _ => none
  | read bit => some bit

def bits (ws : List Wire) : List Nat := ws.filterMap bit?

variable {ws : List Wire} {w v : Word} {bit : Nat} {b : Bool}

@[simp] theorem carry_comp_fixed : carry w ∘ fixed = id := rfl

@[simp] theorem carry_comp_read : carry w ∘ read = w.getLsbD := rfl

@[simp] theorem bits_fixed : bits (fixed b :: ws) = bits ws := rfl

@[simp] theorem bits_read : bits (read bit :: ws) = bit :: bits ws := rfl

theorem bits_append (front back : List Wire) : bits (front ++ back) = bits front ++ bits back :=
  List.filterMap_append

@[simp] theorem bits_map_fixed (bs : List Bool) : bits (bs.map fixed) = [] := by
  induction bs with
  | nil => rfl
  | cons b bs ih => simpa using ih

@[simp] theorem bits_map_read (ns : List Nat) : bits (ns.map read) = ns := by
  induction ns with
  | nil => rfl
  | cons n ns ih => simpa using ih

theorem map_carry_eq_iff :
    ws.map (carry w) = ws.map (carry v) ↔ ∀ bit ∈ bits ws, w.getLsbD bit = v.getLsbD bit := by
  induction ws with
  | nil => simp [bits]
  | cons a ws ih => cases a <;> simp [carry, ih]

end Wire

namespace BitRange

def bits (r : BitRange) : List Nat := (List.range' r.first (r.last + 1 - r.first)).reverse

@[simp] theorem mem_bits {r : BitRange} {bit : Nat} : bit ∈ r.bits ↔ r.Reads bit := by
  rw [bits, List.mem_reverse, List.mem_range'_1, Reads]
  omega

theorem nodup_bits (r : BitRange) : r.bits.Nodup := by
  simp [bits, List.nodup_reverse, List.nodup_range']

theorem nodup_flatMap_bits {ranges : List BitRange} :
    (ranges.flatMap bits).Nodup ↔ Apart ranges := by
  -- a range reads no bit of its own twice, so only two of them can share one
  rw [List.nodup_flatMap, and_iff_right fun r _ => r.nodup_bits]
  refine List.Pairwise.iff fun r t => ?_
  simp [Function.onFun, List.disjoint_left]

end BitRange

/-- The wires that a token names, most significant first: one for each character, or those
of the range. -/
def Piece.tokenWires (token : List Char) : List Wire :=
  match tokenRange? token with
  | some r => r.bits.map .read
  | none => (fixedBits token).map .fixed

theorem Piece.map_carry_tokenWires (w : Word) (token : List Char) :
    (tokenWires token).map (Wire.carry w) = tokenBits w token := by
  unfold tokenBits
  split
  · rename_i start stop h
    simp [tokenWires, tokenRange?, h, BitRange.bits, Word.field]
  · rename_i h
    have hn : tokenRange? token = none := by
      unfold tokenRange?
      split
      · exact absurd ‹_› (h _ _)
      · rfl
    simp [tokenWires, hn]

theorem Piece.bits_tokenWires (token : List Char) :
    Wire.bits (tokenWires token) = (tokenRange? token).toList.flatMap BitRange.bits := by
  unfold tokenWires
  cases tokenRange? token <;> simp

namespace Parameter

def wires (p : Parameter) : List Wire :=
  (Layout.tokens p.source).flatMap fun t => Piece.tokenWires t.toList

variable {p : Parameter} {w v : Word}

theorem map_carry_wires (p : Parameter) (w : Word) :
    p.wires.map (Wire.carry w) = Layout.sourceBits w p.source := by
  simp [wires, Layout.sourceBits, List.map_flatMap, Piece.map_carry_tokenWires]

theorem bits_wires (p : Parameter) : Wire.bits p.wires = p.ranges.flatMap BitRange.bits := by
  unfold wires ranges
  induction Layout.tokens p.source with
  | nil => rfl
  | cons t ts ih =>
    rw [List.flatMap_cons, Wire.bits_append, ih, Piece.bits_tokenWires, List.filterMap_cons]
    cases Piece.tokenRange? t.toList <;> simp

theorem mem_bits_wires {bit : Nat} : bit ∈ Wire.bits p.wires ↔ ∃ r ∈ p.ranges, r.Reads bit := by
  simp [bits_wires]

theorem nodup_bits_wires : (Wire.bits p.wires).Nodup ↔ BitRange.Apart p.ranges := by
  rw [bits_wires, BitRange.nodup_flatMap_bits]

theorem Valid.range_wellFormed (h : p.Valid) : ∀ r ∈ p.ranges, r.first ≤ r.last ∧ r.last < 64 := by
  rw [← h.ranges_layout, Layout.ranges, List.filterMap_map]
  intro r hr
  obtain ⟨⟨n, piece⟩, hs, hsr⟩ := List.mem_filterMap.mp hr
  cases piece with
  | bits first last =>
    cases hsr
    exact h.laidOut.wellFormed _ hs
  | const => cases hsr

theorem Valid.toNat_value (h : p.Valid) (w : Word) :
    (p.value w).toNat = bitNumber (p.wires.map (Wire.carry w)) := by
  obtain ⟨ps, hs, he⟩ := h.spelled
  rw [map_carry_wires, Layout.sourceBits, hs.bitNumber_bits (he ▸ h.laidOut), ← he, value]

theorem Valid.length_wires (h : p.Valid) : p.wires.length = p.width := by
  obtain ⟨ps, hs, he⟩ := h.spelled
  rw [← List.length_map (Wire.carry 0), map_carry_wires, Layout.sourceBits, hs.length_bits, ← he,
    width]

/-- A word has a value exactly when the wires carry the bits of that value. -/
theorem Valid.value_eq_iff (h : p.Valid) (hv : v.toNat < 2 ^ p.width) :
    p.value w = v ↔ p.wires.map (Wire.carry w) = v.field 0 p.width := by
  rw [← bitNumber_inj (by simp [h.length_wires]), ← h.toNat_value,
    Word.bitNumber_field_zero hv, BitVec.toNat_inj]

theorem Valid.value_eq_value_iff (h : p.Valid) : p.value w = p.value v ↔
    ∀ bit, (∃ r ∈ p.ranges, r.Reads bit) → w.getLsbD bit = v.getLsbD bit := by
  simp only [← mem_bits_wires, ← Wire.map_carry_eq_iff]
  rw [← bitNumber_inj (by simp), ← h.toNat_value, ← h.toNat_value, BitVec.toNat_inj]

end Parameter

end BitLayout
