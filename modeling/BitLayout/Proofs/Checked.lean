import BitLayout.Proofs.Assembly

/-! # Checked arithmetic

Sources are read and values assembled with numbers of 32 and of 64 bits. Here every step
is taken on whole numbers and stops where its exact result does not fit, or where a shift
loses a bit. No run stops so, and the runs give what the layouts do.
-/

namespace BitLayout.Checked

/-- Why a run stops: a result does not fit, or the text is refused. -/
inductive Halt where
  | overflow
  | refused (cause : EncodingError)
deriving DecidableEq, Repr

abbrev Run := Except Halt

def fit (n a : Nat) : Run Nat := if a < 2 ^ n then .ok a else .error .overflow

def add (n a b : Nat) : Run Nat := fit n (a + b)

def sub (a b : Nat) : Run Nat := if b ≤ a then .ok (a - b) else .error .overflow

/-- The number moved up among `n` bits, if the distance is less and no set bit leaves. -/
def shiftUp (n a distance : Nat) : Run Nat :=
  if distance < n then fit n (a * 2 ^ distance) else .error .overflow

/-- The number moved down among `n` bits, if the distance is less and no set bit leaves. -/
def shiftDown (n a distance : Nat) : Run Nat :=
  if distance < n ∧ 2 ^ distance ∣ a then .ok (a / 2 ^ distance) else .error .overflow

def rangeLength (first last : Nat) : Run Nat := do
  let distance ← sub last first
  add 32 distance 1

def lowest (count : Nat) : Run Nat :=
  if 64 ≤ count then .ok (2 ^ 64 - 1)
  else do
    let power ← shiftUp 64 1 count
    sub power 1

def span (first last : Nat) : Run Nat := do
  let count ← rangeLength first last
  let ones ← lowest count
  shiftUp 64 ones first

def length : Piece → Run Nat
  | .bits first last => rangeLength first last
  | .const length _ => .ok length

def mask? : Piece → Run (Option Nat)
  | .bits first last => (span first last).map some
  | .const _ _ => .ok none

def unshifted (w : Word) : Piece → Run Nat
  | .bits first last => do
    let mask ← span first last
    shiftDown 64 (w.toNat &&& mask) first
  | .const _ number => .ok number.toNat

def contribution (w : Word) (s : Slice) : Run Nat := do
  let number ← unshifted w s.piece
  shiftUp 64 number s.shift

/-- The sum over the slices in textual order, each partial sum being one of `n` bits. -/
def sum (n : Nat) (f : Slice → Run Nat) (l : Layout) : Run Nat :=
  l.foldlM (fun total s => do
    let a ← f s
    add n total a) 0

def width (l : Layout) : Run Nat := sum 32 (fun s => length s.piece) l

def value (w : Word) (l : Layout) : Run Nat := sum 64 (contribution w) l

def fixedNumber (cs : List Char) : Run Nat :=
  cs.foldlM (fun number c => do
    let up ← shiftUp 64 number 1
    .ok (up ||| if c = '+' then 1 else 0)) 0

def sliceOfToken (token : String) (shift : Nat) : Run Slice :=
  if token.toList.any Piece.isFixedBit then
    if !token.toList.all Piece.isFixedBit then .error (.refused (.badConst token .foreignCharacter))
    else if wordBits < token.toList.length then .error (.refused (.badConst token .tooLong))
    else do
      let length ← fit 32 token.toList.length
      let number ← fixedNumber token.toList
      .ok ⟨shift, .const length (BitVec.ofNat wordBits number)⟩
  else
    match Piece.rangeOfToken token.toList with
    | .error reason => .error (.refused (.badRange token reason))
    | .ok piece => .ok ⟨shift, piece⟩

def ofTokens : List String → Run (Layout × Nat)
  | [] => .ok ([], 0)
  | token :: rest => do
    let (slices, offset) ← ofTokens rest
    let slice ← sliceOfToken token offset
    let bits ← length slice.piece
    .ok (slice :: slices, min (offset + bits) Layout.offsetLimit)

def ofSource (source : String) : Run Layout :=
  if source.isEmpty then .ok []
  else do
    let (slices, offset) ← ofTokens (Layout.tokens source)
    if wordBits < offset then .error (.refused (.fieldTooWide source offset)) else .ok slices

variable {first last n a b distance count : Nat} {p : Piece} {s : Slice} {l : Layout} {w : Word}

theorem fit_eq_ok (h : a < 2 ^ n) : fit n a = .ok a := if_pos h

theorem add_eq_ok (h : a + b < 2 ^ n) : add n a b = .ok (a + b) := fit_eq_ok h

theorem sub_eq_ok (h : b ≤ a) : sub a b = .ok (a - b) := if_pos h

theorem shiftUp_eq_ok (hd : distance < n) (h : a * 2 ^ distance < 2 ^ n) :
    shiftUp n a distance = .ok (a * 2 ^ distance) := by
  rw [shiftUp, if_pos hd, fit_eq_ok h]

theorem shiftDown_eq_ok (hd : distance < n) (h : 2 ^ distance ∣ a) :
    shiftDown n a distance = .ok (a / 2 ^ distance) := if_pos ⟨hd, h⟩

theorem rangeLength_eq_ok (hle : first ≤ last) (hlt : last < 64) :
    rangeLength first last = .ok (last + 1 - first) := by
  rw [rangeLength, sub_eq_ok hle, Outcome.ok_bind, add_eq_ok (by omega)]
  congr 1
  omega

theorem lowest_eq_ok (h : count ≤ 64) : lowest count = .ok (2 ^ count - 1) := by
  unfold lowest
  by_cases hc : 64 ≤ count
  · rw [if_pos hc, Nat.le_antisymm h hc]
  · have hp : 2 ^ count < 2 ^ 64 := Nat.pow_lt_pow_right (by omega) (by omega)
    rw [if_neg hc, shiftUp_eq_ok (by omega) (by omega), Outcome.ok_bind, Nat.one_mul,
      sub_eq_ok Nat.one_le_two_pow]

theorem span_eq_ok (hle : first ≤ last) (hlt : last < 64) :
    span first last = .ok (Word.span first last).toNat := by
  have hcount : last + 1 - first ≤ 64 := by omega
  have hfit := (Word.span first last).isLt
  rw [Word.toNat_span hlt] at hfit ⊢
  rw [span, rangeLength_eq_ok hle hlt, Outcome.ok_bind, lowest_eq_ok hcount, Outcome.ok_bind,
    shiftUp_eq_ok (Nat.lt_of_le_of_lt hle hlt) hfit]

theorem length_eq_ok (h : p.WellFormed) : length p = .ok p.length := by
  cases p with
  | bits first last => exact rangeLength_eq_ok h.1 h.2
  | const => rfl

theorem mask?_eq_ok (h : p.WellFormed) : mask? p = .ok (p.mask?.map BitVec.toNat) := by
  cases p with
  | bits first last =>
    rw [mask?, span_eq_ok h.1 h.2]
    rfl
  | const => rfl

theorem unshifted_eq_ok (h : p.WellFormed) (w : Word) : unshifted w p = .ok (p.value w).toNat := by
  cases p with
  | bits first last =>
    have hfirst : first < 64 := Nat.lt_of_le_of_lt h.1 h.2
    rw [unshifted, span_eq_ok h.1 h.2, Outcome.ok_bind, ← BitVec.toNat_and,
      shiftDown_eq_ok hfirst (Word.two_pow_dvd_and_span w h.2), Piece.value,
      BitVec.toNat_ushiftRight, Nat.shiftRight_eq_div_pow]
  | const => rfl

theorem contribution_eq_ok (h : s.piece.WellFormed) (hle : s.length + s.shift ≤ 64) (w : Word) :
    contribution w s = .ok (s.value w).toNat := by
  have hpos : 0 < s.length := Piece.length_pos h
  have hshift : s.shift < 64 := by omega
  have hfit := (s.value w).isLt
  -- the value at its place is a word, so moving it up lost nothing
  rw [Slice.toNat_value h hle] at hfit ⊢
  rw [contribution, unshifted_eq_ok h, Outcome.ok_bind, shiftUp_eq_ok hshift hfit]

theorem foldlM_add_eq_ok {f : Slice → Run Nat} {g : Slice → Nat} (hf : ∀ s ∈ l, f s = .ok (g s))
    (h : a + (l.map g).sum < 2 ^ n) :
    (l.foldlM (fun total s => do
      let b ← f s
      add n total b) a) = .ok (a + (l.map g).sum) := by
  induction l generalizing a with
  | nil => rfl
  | cons s l ih =>
    rw [List.forall_mem_cons] at hf
    rw [List.map_cons, List.sum_cons, ← Nat.add_assoc] at h ⊢
    rw [List.foldlM_cons, hf.1, Outcome.ok_bind, add_eq_ok (by omega), Outcome.ok_bind, ih hf.2 h]

theorem sum_eq_ok {f : Slice → Run Nat} {g : Slice → Nat} (hf : ∀ s ∈ l, f s = .ok (g s))
    (h : (l.map g).sum < 2 ^ n) : sum n f l = .ok (l.map g).sum := by
  rw [sum, foldlM_add_eq_ok hf (by omega), Nat.zero_add]

theorem width_eq_ok (h : Layout.LaidOut l) : width l = .ok l.width := by
  have hf : ∀ s ∈ l, length s.piece = .ok s.length := fun s hs => length_eq_ok (h.wellFormed s hs)
  have hle := h.width_le
  rw [width, sum_eq_ok hf (by rw [Layout.sum_map_length]; omega), Layout.sum_map_length]

theorem value_eq_ok (h : Layout.LaidOut l) (w : Word) :
    value w l = .ok (Layout.value w l).toNat := by
  have hf : ∀ s ∈ l, contribution w s = .ok (s.value w).toNat := fun s hs =>
    contribution_eq_ok (h.wellFormed s hs) (h.length_add_shift_le s hs) w
  have hsum := h.sum_map_toNat_value w
  have hlt : (l.map fun s => (s.value w).toNat).sum < 2 ^ 64 := by
    rw [hsum]
    exact (Layout.value w l).isLt
  rw [value, sum_eq_ok hf hlt, hsum]

theorem appendBit_eq_ok {number : Word} (hn : n < 64) (h : number.toNat < 2 ^ n) (c : Char) :
    (do
      let up ← shiftUp 64 number.toNat 1
      .ok (up ||| if c = '+' then 1 else 0) : Run Nat) =
      .ok (number <<< 1 ||| if c = '+' then 1 else 0).toNat := by
  have hp : 2 ^ (n + 1) ≤ 2 ^ 64 := Nat.pow_le_pow_right (by omega) (by omega)
  have hfit : number.toNat * 2 ^ 1 < 2 ^ 64 := by omega
  rw [shiftUp_eq_ok (by omega) hfit, Outcome.ok_bind, BitVec.toNat_or, BitVec.toNat_shiftLeft,
    Nat.shiftLeft_eq, Nat.mod_eq_of_lt hfit]
  split <;> rfl

theorem foldlM_fixed (token : List Char) (number : Word) (hn : n + token.length ≤ 64)
    (h : number.toNat < 2 ^ n) :
    (token.foldlM (fun number c => do
      let up ← shiftUp 64 number 1
      .ok (up ||| if c = '+' then 1 else 0)) number.toNat : Run Nat) =
      .ok (token.foldl (fun (w : Word) c => w <<< 1 ||| if c = '+' then 1 else 0)
        number).toNat := by
  -- `n` counts the bits read so far, all of them below the next one
  induction token generalizing number n with
  | nil => rfl
  | cons c cs ih =>
    rw [List.length_cons] at hn
    have hlt : (number <<< 1 ||| if c = '+' then 1 else 0).toNat < 2 ^ (n + 1) := by
      have hstep := Piece.toNat_appendBit (by omega) h (c == '+')
      have hb : (c == '+').toNat < 2 := Bool.toNat_lt _
      simp only [beq_iff_eq] at hstep
      omega
    rw [List.foldlM_cons, List.foldl_cons, appendBit_eq_ok (by omega) h, Outcome.ok_bind,
      ih _ (by omega) hlt]

theorem fixedNumber_eq_ok {cs : List Char} (h : cs.length ≤ 64) :
    fixedNumber cs = .ok (Piece.fixedNumber cs).toNat :=
  foldlM_fixed cs 0 (n := 0) (by omega) (by simp)

theorem sliceOfToken_eq (token : String) (shift : Nat) :
    sliceOfToken token shift = (Slice.ofToken token shift).mapError .refused := by
  unfold sliceOfToken Slice.ofToken Piece.ofToken Piece.constOfToken
  split
  · split
    · rfl
    · split
      · rfl
      · rename_i hl
        have hlen : token.toList.length ≤ 64 := Nat.le_of_not_lt hl
        rw [fit_eq_ok (by omega), Outcome.ok_bind, fixedNumber_eq_ok hlen, Outcome.ok_bind]
        simp [Except.map, Except.mapError]
  · cases Piece.rangeOfToken token.toList <;> rfl

theorem ofTokens_eq (tokens : List String) :
    ofTokens tokens = (Layout.ofTokens tokens).mapError .refused := by
  induction tokens with
  | nil => rfl
  | cons token rest ih =>
    rw [ofTokens, Layout.ofTokens, ih, Outcome.mapError_bind]
    congr 1
    funext r
    obtain ⟨slices, offset⟩ := r
    simp only [Outcome.mapError_bind, sliceOfToken_eq]
    cases hs : Slice.ofToken token offset with
    | error e => rfl
    | ok slice =>
      have hw := (Piece.ofToken_eq_ok_iff.mp (Layout.ofToken_eq_ok_iff.mp hs).1).wellFormed
      simp only [Except.mapError, Outcome.ok_bind, length_eq_ok hw]
      rfl

theorem ofSource_eq (source : String) :
    ofSource source = (Layout.ofSource source).mapError .refused := by
  unfold ofSource Layout.ofSource
  split
  · rfl
  · rw [ofTokens_eq, Outcome.mapError_bind]
    congr 1
    funext r
    obtain ⟨slices, offset⟩ := r
    by_cases h : wordBits < offset <;> simp [h, Except.mapError]

/-- No step overflows or loses a bit: each token and each source is read as on words, and
so are the lengths, masks and values of the slices of a layout, its width and its value,
each partial sum included. Every slice stands exactly above those that follow it and ends
inside the word, and the sum of the slices is the union of their bits. -/
theorem runs_without_overflow (source : String) (w : Word) :
    (∀ token shift, sliceOfToken token shift = (Slice.ofToken token shift).mapError .refused) ∧
    ofSource source = (Layout.ofSource source).mapError .refused ∧
    ∀ l, Layout.ofSource source = .ok l →
      width l = .ok l.width ∧ value w l = .ok (Layout.value w l).toNat ∧
      (l.map (Slice.value · w)).foldr (· ||| ·) 0 = Layout.value w l ∧
      ∀ before s after, l = before ++ s :: after →
        s.shift = Layout.width after ∧ s.length + s.shift ≤ 64 ∧
        length s.piece = .ok s.length ∧ mask? s.piece = .ok (s.mask?.map BitVec.toNat) ∧
        contribution w s = .ok (s.value w).toNat := by
  refine ⟨sliceOfToken_eq, ofSource_eq source, fun l h => ?_⟩
  have hl := Layout.laidOut_of_ofSource h
  refine ⟨width_eq_ok hl, value_eq_ok hl w, hl.foldr_or_value w, fun before s after he => ?_⟩
  have hs : s ∈ l := he ▸ List.mem_append_right _ List.mem_cons_self
  have hw := hl.wellFormed s hs
  have hle := hl.length_add_shift_le s hs
  exact ⟨hl.shift_eq before s after he, hle, length_eq_ok hw, mask?_eq_ok hw,
    contribution_eq_ok hw hle w⟩

/-- A value that fills the word, with its highest bit fixed. -/
theorem runs_without_overflow_full :
    let l : Layout := [⟨63, .const 1 1⟩, ⟨0, .bits 0 62⟩]
    Layout.ofSource "+,0-62" = .ok l ∧ ofSource "+,0-62" = .ok l ∧ width l = .ok 64 ∧
      value (BitVec.allOnes 64) l = .ok (2 ^ 64 - 1) := by
  intro l
  have h : Layout.ofSource "+,0-62" = .ok l := by decide +kernel
  obtain ⟨-, hsource, hl⟩ := runs_without_overflow "+,0-62" (BitVec.allOnes 64)
  obtain ⟨hwidth, hvalue, -⟩ := hl l h
  rw [h] at hsource
  have hfull : (Layout.value (BitVec.allOnes 64) l).toNat = 2 ^ 64 - 1 := by decide +kernel
  exact ⟨h, hsource, hwidth, hfull ▸ hvalue⟩

end BitLayout.Checked
