import BitLayout.Proofs.Decoding
import BitLayout.Proofs.WordText

/-! # Writing words

A word may be written in each base, behind any number of zeros, in letters of either case, with
underscores anywhere behind the mark and blanks around the whole. Every such text is read as the
word. The two numbers in each line of a decoding are among these texts.
-/

namespace BitLayout

namespace Word

open Text.Numeral (value Denotes exists_canonical value_replicate)

/-- The ways to write a row of characters: each in either case, and underscores anywhere. -/
inductive Spread : List Char → List Char → Prop
  | nil : Spread [] []
  | char {c d : Char} {cs ds : List Char} : d = c ∨ d = c.toUpper → Spread cs ds →
      Spread (c :: cs) (d :: ds)
  | underscore {cs ds : List Char} : Spread cs ds → Spread cs ('_' :: ds)

/-- The texts that a word may be written as in a base. -/
inductive Written (base : Base) (w : Word) : List Char → Prop
  | intro {front mark body back : List Char} (zeros : Nat) :
      (∀ c ∈ front, Text.isBlank c = true) →
      List.Forall₂ (fun c d => d = c ∨ d = c.toUpper) base.mark mark →
      Spread (List.replicate zeros '0' ++ Nat.toDigits base.radix w.toNat) body →
      (∀ c ∈ back, Text.isBlank c = true) →
      Written base w (front ++ (mark ++ body) ++ back)

/-- A character that cleaning lowers to a given one. -/
structure Lowers (d c : Char) : Prop where
  toLower : d.toLower = c
  ne_underscore : d ≠ '_'
  isBlank : Text.isBlank d = false

instance (d c : Char) : Decidable (Lowers d c) :=
  decidable_of_iff (d.toLower = c ∧ d ≠ '_' ∧ Text.isBlank d = false)
    ⟨fun ⟨h, k, l⟩ => ⟨h, k, l⟩, fun ⟨h, k, l⟩ => ⟨h, k, l⟩⟩

/-- In either case, cleaning keeps the character and lowers it. -/
def Plain (c : Char) : Prop := Lowers c c ∧ Lowers c.toUpper c

instance (c : Char) : Decidable (Plain c) := inferInstanceAs (Decidable (_ ∧ _))

variable {base : Base} {w : Word} {c d : Char} {cs ds es fs : List Char} {text : String}

theorem Plain.lowers (h : Plain c) (hd : d = c ∨ d = c.toUpper) : Lowers d c := by
  rcases hd with rfl | rfl
  · exact h.1
  · exact h.2

theorem plain_digitChar {n : Nat} (hn : n < 16) : Plain (Nat.digitChar n) := by
  have all : ∀ n < 16, Plain (Nat.digitChar n) := by decide
  exact all n hn

theorem Base.exists_letter (h : base ≠ .decimal) :
    ∃ letter, base.mark = ['0', letter] ∧ Plain letter := by
  cases base with
  | binary => exact ⟨'b', rfl, by decide⟩
  | octal => exact ⟨'o', rfl, by decide⟩
  | decimal => exact absurd rfl h
  | hexadecimal => exact ⟨'x', rfl, by decide⟩

theorem plain_mark (base : Base) : ∀ c ∈ base.mark, Plain c := by
  by_cases hb : base = .decimal
  · subst hb
    exact List.forall_mem_nil _
  · obtain ⟨letter, hm, hl⟩ := Base.exists_letter hb
    have zero : Plain '0' := by decide
    rw [hm]
    exact List.forall_mem_cons.mpr ⟨zero, List.forall_mem_singleton.mpr hl⟩

theorem Spread.refl (cs : List Char) : Spread cs cs := by
  induction cs with
  | nil => exact .nil
  | cons c cs ih => exact .char (.inl rfl) ih

theorem Spread.append (h : Spread cs ds) (k : Spread es fs) : Spread (cs ++ es) (ds ++ fs) := by
  induction h with
  | nil => exact k
  | char hd _ ih => exact .char hd ih
  | underscore _ ih => exact .underscore ih

theorem spread_of_forall₂ (h : List.Forall₂ (fun c d => d = c ∨ d = c.toUpper) cs ds) :
    Spread cs ds := by
  induction h with
  | nil => exact .nil
  | cons hd _ ih => exact .char hd ih

theorem Spread.map_toLower_filter (h : Spread cs ds) (hp : ∀ c ∈ cs, Plain c) :
    (ds.filter (· != '_')).map Char.toLower = cs := by
  induction h with
  | nil => rfl
  | char hd _ ih =>
    obtain ⟨hc, hcs⟩ := List.forall_mem_cons.mp hp
    have hl := hc.lowers hd
    rw [List.filter_cons_of_pos (by simpa using hl.ne_underscore), List.map_cons, hl.toLower,
      ih hcs]
  | underscore _ ih => exact ih hp

theorem Spread.isBlank (h : Spread cs ds) (hp : ∀ c ∈ cs, Plain c) :
    ∀ d ∈ ds, Text.isBlank d = false := by
  induction h with
  | nil => simp
  | char hd _ ih =>
    obtain ⟨hc, hcs⟩ := List.forall_mem_cons.mp hp
    exact List.forall_mem_cons.mpr ⟨(hc.lowers hd).isBlank, ih hcs⟩
  | underscore _ ih => exact List.forall_mem_cons.mpr ⟨by decide, ih hp⟩

/-- Between blanks, a spread row is cleaned to the row. -/
theorem clean_eq_of_spread {front back : List Char} (ht : text.toList = front ++ ds ++ back)
    (hf : ∀ c ∈ front, Text.isBlank c = true) (hb : ∀ c ∈ back, Text.isBlank c = true)
    (h : Spread cs ds) (hp : ∀ c ∈ cs, Plain c) : clean text = cs := by
  have trims : Text.Trims text.toList ds :=
    ⟨⟨front, back, ht, hf, hb⟩, fun c hc => h.isBlank hp c (List.mem_of_head? hc),
      fun c hc => h.isBlank hp c (List.mem_of_getLast? hc)⟩
  rw [clean, Text.trim_eq_iff.mpr trims, h.map_toLower_filter hp]

theorem plain_digits {digits : List Nat} (hd : ∀ d ∈ digits, d < base.radix) :
    ∀ c ∈ base.mark ++ digits.map Nat.digitChar, Plain c := by
  refine List.forall_mem_append.mpr ⟨plain_mark base, fun c hc => ?_⟩
  obtain ⟨d, hm, rfl⟩ := List.mem_map.mp hc
  exact plain_digitChar (Nat.lt_of_lt_of_le (hd d hm) base.radix_le)

theorem Base.one_lt_radix (base : Base) : 1 < base.radix := by
  cases base <;> decide

theorem ofText_of_written (h : Written base w text.toList) : ofText text = .ok w := by
  generalize ht : text.toList = written at h
  cases h with
  | intro zeros hf hm hs hb =>
    obtain ⟨digits, hc, he⟩ := exists_canonical base.one_lt_radix w.toNat
    have hrow : List.replicate zeros '0' ++ Nat.toDigits base.radix w.toNat =
        (List.replicate zeros 0 ++ digits).map Nat.digitChar := by
      rw [List.map_append, List.map_replicate, he]
      rfl
    have hd : ∀ d ∈ List.replicate zeros 0 ++ digits, d < base.radix := by
      refine List.forall_mem_append.mpr ⟨fun d hd => ?_, hc.lt⟩
      rw [List.eq_of_mem_replicate hd]
      exact Nat.lt_trans Nat.zero_lt_one base.one_lt_radix
    rw [hrow] at hs
    refine ofText_eq_ok_iff.mpr ⟨base, _, ?_, by simp [hc.ne_nil], hd, ?_⟩
    · exact clean_eq_of_spread ht hf hb ((spread_of_forall₂ hm).append hs) (plain_digits hd)
    · rw [value_replicate, hc.value_eq]

theorem ofText_of_denotes (base : Base) {numeral : String}
    (h : Denotes base.radix numeral w.toNat) :
    ofText (String.ofList base.mark ++ numeral) = .ok w := by
  obtain ⟨digits, hc, rfl⟩ := h
  refine ofText_eq_ok_iff.mpr ⟨base, digits, ?_, hc.ne_nil, hc.lt, hc.value_eq⟩
  have ht : (String.ofList base.mark ++ String.ofList (digits.map Nat.digitChar)).toList =
      [] ++ (base.mark ++ digits.map Nat.digitChar) ++ [] := by simp
  exact clean_eq_of_spread ht (by simp) (by simp) (.refl _) (plain_digits hc.lt)

end Word

namespace CommandLine

open Text.Numeral (Denotes)

/-- The numbers of a line, in decimal and in hexadecimal, are read as the value of a parameter. -/
def ReadsBack (w : Word) (p : Parameter) (line : String) : Prop :=
  ∃ decimal hex, line = "  " ++ p.name ++ " = " ++ decimal ++ " (0x" ++ hex ++ ")\n" ∧
    Word.ofText decimal = .ok (p.value w) ∧ Word.ofText ("0x" ++ hex) = .ok (p.value w)

def BlockReadsBack (w : Word) (i : Instruction) (block : String) : Prop :=
  ∃ lines, Pieces (ReadsBack w) i.parameters lines ∧ block = i.name ++ ":\n" ++ lines

variable {w : Word} {p : Parameter} {i : Instruction} {line block : String}

theorem ShowsValue.readsBack (h : ShowsValue w p line) : ReadsBack w p line := by
  obtain ⟨decimal, hex, hd, hh, rfl⟩ := h
  have read := Word.ofText_of_denotes .decimal hd
  refine ⟨decimal, hex, rfl, ?_, Word.ofText_of_denotes .hexadecimal hh⟩
  simpa [Word.Base.mark] using read

theorem ShowsValues.readsBack (h : ShowsValues w i block) : BlockReadsBack w i block := by
  obtain ⟨lines, hl, rfl⟩ := h
  exact ⟨lines, hl.imp fun _ _ => ShowsValue.readsBack, rfl⟩

/-- Every written form of a word is read as the word. In the text of a decoding, the two numbers
of each line are read as the value that they show. -/
theorem ofText_written :
    (∀ base w text, Word.Written base w text.toList → Word.ofText text = .ok w) ∧
    ∀ files o out, o.json = false → runDecode files o = .ok out →
      ∃ w s is, Word.ofText o.word = .ok w ∧ Loads files o.mode o.schema s ∧
        Selects s o.instruction is ∧ Pieces (BlockReadsBack w) is out := by
  refine ⟨fun base w text h => Word.ofText_of_written h, fun files o out hj h => ?_⟩
  obtain ⟨w, s, is, hw, hs, hi, rfl⟩ := runDecode_eq_ok_iff.mp h
  rw [hj, if_neg (by simp)]
  have blocks := pieces_decodedText hs.valid hi w
  exact ⟨w, s, is, hw, hs, hi, blocks.imp fun _ _ => ShowsValues.readsBack⟩

/-- A word between blanks with zeros, underscores and capitals, and one that is decoded. -/
theorem ofText_written_sample :
    let files : Files := fun _ => .ok
      "[[\"ldi\",\"8bit\",null,[[\"rd\",\"4-7\"],[\"imm\",\"0-3,##\"]]]]"
    Word.ofText "\u00a0 0X_00fF__ \n" = .ok 0xff ∧
      ∃ w s is, Word.ofText "0x1_B4" = .ok w ∧ Loads files .strict "isa" s ∧
        Selects s (some "ldi") is ∧
        Pieces (BlockReadsBack w) is "ldi:\n  rd = 11 (0xb)\n  imm = 16 (0x10)\n" := by
  intro files
  obtain ⟨written, decoded⟩ := ofText_written
  constructor
  · refine written .hexadecimal 0xff _ ?_
    have ht : "\u00a0 0X_00fF__ \n".toList =
      ['\u00a0', ' '] ++ (['0', 'X'] ++ ['_', '0', '0', 'f', 'F', '_', '_']) ++ [' ', '\n'] := by
      decide
    have front : ∀ c ∈ ['\u00a0', ' '], Text.isBlank c = true :=
      List.forall_mem_cons.mpr ⟨by decide, List.forall_mem_singleton.mpr (by decide)⟩
    have back : ∀ c ∈ [' ', '\n'], Text.isBlank c = true :=
      List.forall_mem_cons.mpr ⟨by decide, List.forall_mem_singleton.mpr (by decide)⟩
    rw [ht]
    refine .intro 2 front (.cons (.inl rfl) (.cons (.inr rfl) .nil)) ?_ back
    exact .underscore (.char (.inl rfl) (.char (.inl rfl) (.char (.inl rfl) (.char (.inr rfl)
      (.underscore (.underscore .nil))))))
  · exact decoded files ⟨"isa", some "ldi", .strict, false, "0x1_B4"⟩ _ rfl (by decide +kernel)

end CommandLine

end BitLayout
