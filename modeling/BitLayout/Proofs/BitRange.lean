import BitLayout.Proofs.Parameter
import BitLayout.Proofs.Tiling

/-! # Bit ranges

The ranges of a parameter are those that the tokens of its source name, and its slices
read exactly these. Ranges are sound when they end below a bound and no two of them
share a bit. A word records ranges when its set bits are those that the ranges read,
and a further range repeats the bits that it shares with the word.
-/

namespace BitLayout

/-- Neighbouring bits of the word, from the first to the last. -/
structure BitRange where
  first : Nat
  last : Nat
deriving DecidableEq, Repr

namespace BitRange

def Reads (r : BitRange) (bit : Nat) : Prop := r.first ≤ bit ∧ bit ≤ r.last

instance (r : BitRange) (bit : Nat) : Decidable (r.Reads bit) :=
  inferInstanceAs (Decidable (r.first ≤ bit ∧ bit ≤ r.last))

/-- No bit is read by two of the ranges. -/
def Apart (ranges : List BitRange) : Prop :=
  ranges.Pairwise fun r t => ∀ bit, ¬ (r.Reads bit ∧ t.Reads bit)

/-- All ranges end below `bits`, and no bit is read by two of them. -/
structure Sound (bits : Nat) (ranges : List BitRange) : Prop where
  last_lt : ∀ r ∈ ranges, r.last < bits
  disjoint : ranges.Pairwise fun r t => ∀ bit, ¬ (r.Reads bit ∧ t.Reads bit)

def Repeats (earlier : List BitRange) (r : BitRange) (bit : Nat) : Prop :=
  r.Reads bit ∧ ∃ t ∈ earlier, t.Reads bit

variable {bits bit : Nat} {earlier later : List BitRange} {r : BitRange} {seen : Word}

theorem sound_nil : Sound bits [] := ⟨by simp, .nil⟩

theorem Sound.of_append (h : Sound bits (earlier ++ later)) : Sound bits earlier where
  last_lt t ht := h.last_lt t (List.mem_append_left _ ht)
  disjoint := (List.pairwise_append.mp h.disjoint).1

theorem sound_concat : Sound bits (earlier ++ [r]) ↔
    Sound bits earlier ∧ r.last < bits ∧ ∀ bit, ¬ Repeats earlier r bit := by
  constructor
  · intro h
    refine ⟨h.of_append, h.last_lt r (List.mem_append_right _ List.mem_cons_self), ?_⟩
    rintro bit ⟨hr, t, ht, htb⟩
    exact (List.pairwise_append.mp h.disjoint).2.2 t ht r List.mem_cons_self bit ⟨htb, hr⟩
  · rintro ⟨h, hlt, hn⟩
    refine ⟨?_, List.pairwise_append.mpr ⟨h.disjoint, List.pairwise_singleton _ _, ?_⟩⟩
    · intro t ht
      rcases List.mem_append.mp ht with ht | ht
      · exact h.last_lt t ht
      · rwa [List.mem_singleton.mp ht]
    · intro t ht u hu bit hb
      rw [List.mem_singleton.mp hu] at hb
      exact hn bit ⟨hb.2, t, ht, hb.1⟩

/-- The set bits of the word are those that the ranges read. -/
def Recorded (seen : Word) (ranges : List BitRange) : Prop :=
  ∀ bit, seen.getLsbD bit = true ↔ ∃ t ∈ ranges, t.Reads bit

theorem recorded_nil : Recorded 0 [] := by
  intro bit
  simp

theorem getLsbD_span_iff (h : r.last < 64) :
    (Word.span r.first r.last).getLsbD bit = true ↔ r.Reads bit := by
  rw [Word.getLsbD_span h, decide_eq_true_iff, Reads]

theorem Recorded.concat (hs : Recorded seen earlier) (h : r.last < 64) :
    Recorded (seen ||| Word.span r.first r.last) (earlier ++ [r]) := by
  intro bit
  rw [BitVec.getLsbD_or, Bool.or_eq_true, hs bit, getLsbD_span_iff h]
  simp [or_and_right, exists_or]

theorem Recorded.next (hs : Recorded seen earlier) (hb : bits ≤ 64)
    (h : Sound bits (earlier ++ [r])) :
    Recorded (seen ||| Word.span r.first r.last) (earlier ++ [r]) :=
  hs.concat (Nat.lt_of_lt_of_le (sound_concat.mp h).2.1 hb)

theorem Recorded.getLsbD_and (hs : Recorded seen earlier) (h : r.last < 64) :
    (seen &&& Word.span r.first r.last).getLsbD bit = true ↔ Repeats earlier r bit := by
  rw [BitVec.getLsbD_and, Bool.and_eq_true, hs bit, getLsbD_span_iff h, and_comm, Repeats]

theorem Recorded.lowestBit?_eq_none_iff (hs : Recorded seen earlier) (h : r.last < 64) :
    (seen &&& Word.span r.first r.last).lowestBit? = none ↔ ∀ bit, ¬ Repeats earlier r bit := by
  rw [Word.lowestBit?_eq_none_iff]
  constructor
  · intro hz bit hb
    have hset := (hs.getLsbD_and h).mpr hb
    simp [hz] at hset
  · intro hn
    refine BitVec.eq_of_getLsbD_eq fun bit _ => ?_
    rw [Bool.eq_false_iff.mpr fun hset => hn bit ((hs.getLsbD_and h).mp hset)]
    simp

theorem Recorded.lowestBit?_eq_some_iff (hs : Recorded seen earlier) (h : r.last < 64) :
    (seen &&& Word.span r.first r.last).lowestBit? = some bit ↔
      Repeats earlier r bit ∧ ∀ b < bit, ¬ Repeats earlier r b := by
  simp only [Word.lowestBit?_eq_some_iff, ← hs.getLsbD_and h, Bool.not_eq_true]

end BitRange

def Piece.range? : Piece → Option BitRange
  | .bits first last => some ⟨first, last⟩
  | .const _ _ => none

/-- The range that a token names by its two numbers; a token of fixed bits names none. -/
def Piece.tokenRange? (token : List Char) : Option BitRange :=
  match token.splitOn '-' with
  | [start, stop] => some ⟨Nat.ofDigitChars 10 start 0, Nat.ofDigitChars 10 stop 0⟩
  | _ => none

/-- The ranges that the tokens of the source name, in textual order. -/
def Parameter.ranges (p : Parameter) : List BitRange :=
  (Layout.tokens p.source).filterMap fun t => Piece.tokenRange? t.toList

theorem Piece.Spells.tokenRange?_eq {cs : List Char} {p : Piece} (h : Piece.Spells cs p) :
    Piece.tokenRange? cs = p.range? := by
  cases h with
  | const _ hall => rw [tokenRange?, splitOn_fixed hall, range?]
  | bits hs ht hf hl =>
    rw [tokenRange?, splitOn_range hs ht, range?]
    simp only [hf, hl]

namespace Layout

variable {l : Layout}

def ranges (l : Layout) : List BitRange := (l.map (·.piece)).filterMap Piece.range?

theorem ranges_bits (n first last : Nat) :
    ranges (⟨n, .bits first last⟩ :: l) = ⟨first, last⟩ :: ranges l := rfl

theorem map_piece_stack (pieces : List Piece) : (stack pieces).map (·.piece) = pieces := by
  induction pieces with
  | nil => rfl
  | cons p ps ih => rw [stack, List.map_cons, ih]

theorem Spelled.filterMap_tokenRange? {tokens : List String} {pieces : List Piece}
    (h : Spelled tokens pieces) :
    tokens.filterMap (fun t => Piece.tokenRange? t.toList) = pieces.filterMap Piece.range? := by
  induction h with
  | nil => rfl
  | cons hp _ ih =>
    rw [List.filterMap_cons, List.filterMap_cons, ih,
      (Piece.ofToken_eq_ok_iff.mp hp).tokenRange?_eq]

end Layout

theorem Parameter.Valid.ranges_layout {p : Parameter} (h : p.Valid) :
    p.layout.ranges = p.ranges := by
  obtain ⟨ps, hs, he⟩ := h.spelled
  rw [Parameter.ranges, hs.filterMap_tokenRange?, he, Layout.ranges, Layout.map_piece_stack]

end BitLayout
