import BitLayout.Proofs.Assembly
import BitLayout.Proofs.Printing

/-! # Presentations

A showing prints the presentations of the selected instructions. The presentation of a
parameter has one line for each token of its source. A line tells which bits of a word go
where, or which bits are fixed, and the lines alone give the value that decoding finds.
-/

namespace BitLayout

theorem Layout.Spelled.forall₂_stack {tokens : List String} {pieces : List Piece}
    (h : Layout.Spelled tokens pieces) :
    List.Forall₂ (fun t s => Piece.Spells t.toList s.piece) tokens (Layout.stack pieces) := by
  induction h with
  | nil => exact .nil
  | cons hp _ ih => exact .cons (Piece.ofToken_eq_ok_iff.mp hp) ih

namespace CommandLine

open Piece (IsDecimal)
open Text.Numeral (Denotes denotes_write append_stop_inj numeral_stop_inj)

/-- What a line about a parameter tells: bits `first` to `last` of the word, or fixed bits. -/
inductive Line where
  | range (first last shift mask : Nat)
  | fixed (bits : List Bool) (shift : Nat)
deriving DecidableEq, Repr

namespace Line

def width : Line → Nat
  | range first last _ _ => last + 1 - first
  | fixed bits _ => bits.length

/-- What a line adds to the value for a word. -/
def contribution (w : Nat) : Line → Nat
  | range first _ shift mask => ((w &&& mask) >>> first) <<< shift
  | fixed bits shift => bitNumber bits <<< shift

/-- The line that a token calls for, at some place: its range with the mask of just these
bits, or its fixed bits. -/
inductive OfToken : List Char → Line → Prop
  | range {start stop : List Char} {first last shift mask : Nat} : IsDecimal start →
      IsDecimal stop → Nat.ofDigitChars 10 start 0 = first → Nat.ofDigitChars 10 stop 0 = last →
      (∀ bit, mask.testBit bit = decide (first ≤ bit ∧ bit ≤ last)) →
      OfToken (start ++ '-' :: stop) (range first last shift mask)
  | fixed {token : List Char} {shift : Nat} : token ≠ [] → (∀ c ∈ token, c = '#' ∨ c = '+') →
      OfToken token (fixed (token.map (· == '+')) shift)

inductive Prints : Line → String → Prop
  | range {first last shift mask : Nat} {a b k m : String} : Denotes 10 a first →
      Denotes 10 b last → Denotes 10 k shift → Denotes 16 m mask →
      Prints (range first last shift mask)
        ("    bits " ++ a ++ "..=" ++ b ++ " << " ++ k ++ "  mask 0x" ++ m ++ "\n")
  | fixed {bits : List Bool} {shift : Nat} {k : String} : Denotes 10 k shift →
      Prints (fixed bits shift)
        ("    const 0b" ++ String.ofList (bits.map fun b => if b then '1' else '0') ++
          " << " ++ k ++ "\n")

end Line

def lineOf : Slice → Line
  | ⟨shift, .bits first last⟩ => .range first last shift (Word.span first last).toNat
  | ⟨shift, .const length number⟩ => .fixed (number.field 0 length) shift

/-- The block has the name and the source of a parameter and the number of bits of all its
lines in its heading, and the lines after it. -/
def ShowsLines (p : Parameter) (lines : List Line) (block : String) : Prop :=
  ∃ count body, Denotes 10 count (lines.map Line.width).sum ∧ Pieces Line.Prints lines body ∧
    block = "  " ++ p.name ++ " = \"" ++ p.source ++ "\" (" ++ count ++ " bits)\n" ++ body

/-- The block is that of one row of lines alone, one for each token of the source, and for every
word the lines add up to the value of the parameter. -/
def Presents (p : Parameter) (block : String) : Prop :=
  ∃ lines, ShowsLines p lines block ∧ (∀ others, ShowsLines p others block → others = lines) ∧
    List.Forall₂ (fun t k => Line.OfToken t.toList k) (Layout.tokens p.source) lines ∧
    ∀ w : Word, (lines.map (Line.contribution w.toNat)).sum = (p.value w).toNat

variable {s : Slice} {cs : List Char} {i : Instruction} {p : Parameter}

theorem ofToken_lineOf (h : Piece.Spells cs s.piece) : Line.OfToken cs (lineOf s) := by
  obtain ⟨shift, piece⟩ := s
  cases h with
  | const hne hall hl =>
    have hbits : Word.field (BitVec.ofNat 64 (bitNumber (Piece.fixedBits cs))) 0 cs.length =
        Piece.fixedBits cs := by
      rw [← Piece.length_fixedBits]
      exact Word.field_ofNat_bitNumber (by simpa using hl)
    rw [lineOf, hbits]
    exact .fixed hne hall
  | bits hs ht hf hl _ hlt =>
    refine .range hs ht hf hl fun bit => ?_
    rw [BitVec.testBit_toNat, Word.getLsbD_span hlt]

theorem width_lineOf (s : Slice) : (lineOf s).width = s.length := by
  obtain ⟨shift, piece⟩ := s
  cases piece <;> simp [lineOf, Line.width, Slice.length, Piece.length]

theorem contribution_lineOf (hw : s.piece.WellFormed) (hle : s.length + s.shift ≤ 64) (w : Word) :
    (lineOf s).contribution w.toNat = (s.value w).toNat := by
  rw [Slice.toNat_value hw hle, ← Nat.shiftLeft_eq]
  obtain ⟨shift, piece⟩ := s
  cases piece with
  | bits first last => simp [lineOf, Line.contribution, Piece.value]
  | const length number =>
    rw [lineOf, Line.contribution, Word.bitNumber_field_zero hw.2.2, Piece.value]

theorem writePadded_field {length : Nat} {number : Word} (hpos : 1 ≤ length)
    (hn : number.toNat < 2 ^ length) : Text.Numeral.writePadded 2 length number.toNat =
      String.ofList ((number.field 0 length).map fun b => if b then '1' else '0') := by
  have hne : (number.field 0 length).map Bool.toNat ≠ [] := by
    rw [ne_eq, List.map_eq_nil_iff]
    exact List.ne_nil_of_length_pos (by rwa [Word.length_field])
  have hpad : Text.Numeral.writePadded 2 _ _ = _ :=
    Text.Numeral.writePadded_eq (by decide) hne (lt_two_of_mem_bits _)
  rw [List.length_map, Word.length_field, ← bitNumber, Word.bitNumber_field_zero hn,
    List.map_map] at hpad
  rw [hpad]
  congr 1
  refine List.map_congr_left fun b _ => ?_
  cases b <;> rfl

theorem prints_lineOf (hw : s.piece.WellFormed) : (lineOf s).Prints (sliceLine s) := by
  obtain ⟨shift, piece⟩ := s
  have decimal (n : Nat) : Denotes 10 (Text.Numeral.write 10 n) n := denotes_write (by decide) n
  cases piece with
  | bits first last =>
    have hp := Line.Prints.range (decimal first) (decimal last) (decimal shift)
      (denotes_write (by decide) (Word.span first last).toNat)
    have mark : "  mask 0x" = "  mask " ++ "0x" := rfl
    rw [mark] at hp
    simpa only [lineOf, sliceLine, Text.Numeral.writeDecimal, Text.Numeral.writeHex,
      String.append_assoc] using hp
  | const length number =>
    have hp : Line.Prints (.fixed (number.field 0 length) shift) _ := .fixed (decimal shift)
    rw [lineOf, sliceLine]
    simpa only [writePadded_field hw.1 hw.2.2, Text.Numeral.writeDecimal] using hp

theorem isAlphanum_digits (bits : List Bool) :
    ∀ c ∈ bits.map fun b => if b then '1' else '0', c.isAlphanum = true := by
  intro c hc
  obtain ⟨b, -, rfl⟩ := List.mem_map.mp hc
  cases b <;> rfl

theorem map_digit_inj {bits others : List Bool}
    (h : (bits.map fun b => if b then '1' else '0') = others.map fun b => if b then '1' else '0') :
    bits = others := by
  refine (List.map_inj_right fun b c hbc => ?_).mp h
  cases b <;> cases c <;> simp_all

/-- A text begins with one line at most. -/
theorem prints_inj {line other : Line} {a b : String} {r t : List Char} (ha : line.Prints a)
    (hb : other.Prints b) (h : a.toList ++ r = b.toList ++ t) : line = other ∧ r = t := by
  cases ha with
  | range h₁ h₂ h₃ h₄ =>
    cases hb with
    | range k₁ k₂ k₃ k₄ =>
      simp only [String.toList_append, String.reduceToList, List.cons_append, List.nil_append,
        List.append_assoc, List.cons.injEq, true_and] at h
      obtain ⟨rfl, h⟩ := numeral_stop_inj (by decide) (by decide) h₁ k₁ h
      simp only [List.cons.injEq, true_and] at h
      obtain ⟨rfl, h⟩ := numeral_stop_inj (by decide) (by decide) h₂ k₂ h
      simp only [List.cons.injEq, true_and] at h
      obtain ⟨rfl, h⟩ := numeral_stop_inj (by decide) (by decide) h₃ k₃ h
      simp only [List.cons.injEq, true_and] at h
      obtain ⟨rfl, h⟩ := numeral_stop_inj (by decide) (by decide) h₄ k₄ h
      exact ⟨rfl, h⟩
    | fixed k₁ => simp at h
  | fixed h₁ =>
    cases hb with
    | range => simp at h
    | fixed k₁ =>
      simp only [String.toList_append, String.reduceToList, String.toList_ofList, List.cons_append,
        List.nil_append, List.append_assoc, List.cons.injEq, true_and] at h
      obtain ⟨hbits, h⟩ := append_stop_inj (by decide) (isAlphanum_digits _) (isAlphanum_digits _) h
      simp only [List.cons.injEq, true_and] at h
      obtain ⟨rfl, h⟩ := numeral_stop_inj (by decide) (by decide) h₁ k₁ h
      exact ⟨by rw [map_digit_inj hbits], h⟩

theorem pieces_prints_inj {lines others : List Line} {body : String}
    (h : Pieces Line.Prints lines body) (k : Pieces Line.Prints others body) : lines = others := by
  obtain ⟨as, ha, rfl⟩ := h
  obtain ⟨bs, hb, he⟩ := k
  rw [← String.toList_inj] at he
  induction ha generalizing others bs with
  | nil =>
    cases hb with
    | nil => rfl
    | cons hp _ => cases hp <;> simp at he
  | cons hp _ ih =>
    cases hb with
    | nil => cases hp <;> simp at he
    | cons hq hb =>
      rw [String.join_cons, String.join_cons, String.toList_append, String.toList_append] at he
      obtain ⟨rfl, he⟩ := prints_inj hp hq he
      rw [ih _ hb he]

theorem ShowsLines.unique {lines others : List Line} {block : String}
    (h : ShowsLines p lines block) (k : ShowsLines p others block) : lines = others := by
  obtain ⟨count, body, hc, hp, rfl⟩ := h
  obtain ⟨other, rest, ho, hq, he⟩ := k
  rw [← String.toList_inj] at he
  simp only [String.toList_append, String.reduceToList, List.cons_append, List.nil_append,
    List.append_assoc, List.cons.injEq, true_and, List.append_cancel_left_eq] at he
  obtain ⟨-, he⟩ := numeral_stop_inj (by decide) (by decide) hc ho he
  simp only [List.cons.injEq, true_and, String.toList_inj] at he
  exact pieces_prints_inj hp (he ▸ hq)

theorem showsLines_parameterBlock (h : p.Valid) :
    ShowsLines p (p.layout.map lineOf) (parameterBlock p) := by
  have width : ((p.layout.map lineOf).map Line.width).sum = p.width := by
    rw [Parameter.width, ← Layout.sum_map_length, List.map_map]
    exact congrArg List.sum (List.map_congr_left fun s _ => width_lineOf s)
  refine ⟨_, String.join (p.layout.map sliceLine), width ▸ denotes_write (by decide) _, ?_, rfl⟩
  refine ⟨_, ?_, rfl⟩
  rw [List.forall₂_map_left_iff, List.forall₂_map_right_iff, List.forall₂_same]
  exact fun s hm => prints_lineOf (h.laidOut.wellFormed s hm)

theorem presents_parameterBlock (h : p.Valid) : Presents p (parameterBlock p) := by
  have hl := h.laidOut
  have hshow := showsLines_parameterBlock h
  obtain ⟨pieces, hs, he⟩ := h.spelled
  refine ⟨_, hshow, fun others ho => ho.unique hshow, ?_, fun w => ?_⟩
  · rw [List.forall₂_map_right_iff, he]
    exact hs.forall₂_stack.imp fun t s => ofToken_lineOf
  · rw [Parameter.value, ← hl.sum_map_toNat_value w, List.map_map]
    refine congrArg List.sum (List.map_congr_left fun s hm => ?_)
    exact contribution_lineOf (hl.wellFormed s hm) (hl.length_add_shift_le s hm) w

theorem instructionBlock_eq (h : i.Valid) : ∃ body, Pieces Presents i.parameters body ∧
    instructionBlock i = i.name ++ " (" ++ i.architecture.tag ++ ")" ++
      i.description.elim "" (": " ++ ·) ++ "\n" ++ body := by
  refine ⟨_, pieces_map fun p hp => presents_parameterBlock (h.parameters p hp), ?_⟩
  rw [instructionBlock]
  cases i.description <;> rfl

theorem loads_singleton (h : i.Valid) (path : String) :
    Loads (fun _ => .ok (InstructionSet.toText ⟨[(i.name, i)]⟩)) .lenient path
      ⟨[(i.name, i)]⟩ := by
  have alone : InstructionSet.Valid ⟨[(i.name, i)]⟩ :=
    InstructionSet.valid_empty.append h (by simp [OrderedMap.names, OrderedMap.empty])
  exact ⟨_, rfl, alone.ofText_lenient⟩

/-- The presentation of an instruction has a block for each of its parameters, and a block
alone gives what decoding finds for the parameter in any word. A showing prints just the
presentations of the selected instructions, and every reachable instruction can be shown. -/
theorem runPresent_presents :
    (∀ i : Instruction, i.Reachable → ∃ body, Pieces Presents i.parameters body ∧
      instructionBlock i = i.name ++ " (" ++ i.architecture.tag ++ ")" ++
        i.description.elim "" (": " ++ ·) ++ "\n" ++ body ∧
      ∀ w : Word, (i.decode w).entries = i.parameters.map fun p => (p.name, p.value w)) ∧
    (∀ files path name? out, runPresent files path name? = .ok out ↔
      ∃ s is, Loads files .lenient path s ∧ Selects s name? is ∧ (∀ i ∈ is, i.Reachable) ∧
        out = String.join (is.map instructionBlock)) ∧
    ∀ i : Instruction, i.Reachable → ∀ path,
      runPresent (fun _ => .ok (InstructionSet.toText ⟨[(i.name, i)]⟩)) path (some i.name) =
        .ok (instructionBlock i) := by
  refine ⟨fun i hi => ?_, fun files path name? out => ?_, fun i hi path => ?_⟩
  · obtain ⟨body, hp, he⟩ := instructionBlock_eq hi.valid
    exact ⟨body, hp, he, hi.valid.entries_decode⟩
  · rw [runPresent_eq_ok_iff]
    constructor
    · rintro ⟨s, is, hs, hi, rfl⟩
      exact ⟨s, is, hs, hi, hi.reachable hs.valid, rfl⟩
    · rintro ⟨s, is, hs, hi, -, rfl⟩
      exact ⟨s, is, hs, hi, rfl⟩
  · refine runPresent_eq_ok_iff.mpr ⟨_, [i], loads_singleton hi.valid path, ?_, ?_⟩
    · exact .one (List.mem_singleton_self i)
    · simp [String.join]

/-- A document of two instructions, both of them shown and then the second alone. -/
theorem runPresent_presents_sample :
    let nop : Instruction := ⟨"nop", none, [], .bits8⟩
    let ldi : Instruction := ⟨"ldi", some "Load", [⟨"rd", "4-7", none, [⟨0, .bits 4 7⟩]⟩,
      ⟨"imm", "0-3,#+", none, [⟨2, .bits 0 3⟩, ⟨0, .const 2 1⟩]⟩], .bits8⟩
    let files : Files := fun _ => .ok ("[[\"nop\",\"8bit\",null,[]]," ++
      "[\"ldi\",\"8bit\",\"Load\",[[\"rd\",\"4-7\"],[\"imm\",\"0-3,#+\"]]]]")
    let body := "  rd = \"4-7\" (4 bits)\n    bits 4..=7 << 0  mask 0xf0\n" ++
      "  imm = \"0-3,#+\" (6 bits)\n    bits 0..=3 << 2  mask 0xf\n    const 0b01 << 0\n"
    nop.Reachable ∧ ldi.Reachable ∧
      runPresent files "isa" none = .ok ("nop (8bit)\nldi (8bit): Load\n" ++ body) ∧
      runPresent files "isa" (some "ldi") = .ok ("ldi (8bit): Load\n" ++ body) ∧
      Pieces Presents ldi.parameters body ∧
      (ldi.decode 0xb4).entries = [("rd", 0xb), ("imm", 0b010001)] := by
  intro nop ldi files body
  let isa : InstructionSet := ⟨[("nop", nop), ("ldi", ldi)]⟩
  have hn : nop.Reachable := Instruction.reachable_iff_valid.mpr ⟨by decide, by decide, by decide⟩
  have hr : ldi.Reachable :=
    Instruction.reachable_iff_valid.mpr ⟨by decide, by decide, by decide +kernel⟩
  have hl : Loads files .lenient "isa" isa := ⟨_, rfl, by decide +kernel⟩
  have hm : ldi ∈ isa.values := by decide
  have text : instructionBlock ldi = "ldi (8bit): Load\n" ++ body := by decide +kernel
  obtain ⟨blocks, shown, -⟩ := runPresent_presents
  obtain ⟨rest, presents, he, values⟩ := blocks ldi hr
  obtain rfl : rest = body := (String.append_right_inj _).mp (he.symm.trans text)
  refine ⟨hn, hr, (shown _ _ _ _).mpr ⟨isa, isa.values, hl, .all, ?_, ?_⟩,
    (shown _ _ _ _).mpr ⟨isa, [ldi], hl, .one hm, List.forall_mem_singleton.mpr hr, ?_⟩,
    presents, values 0xb4⟩
  · exact List.forall_mem_cons.mpr ⟨hn, List.forall_mem_singleton.mpr hr⟩
  · decide +kernel
  · decide +kernel

end CommandLine

end BitLayout
