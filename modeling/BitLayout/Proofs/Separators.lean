import BitLayout.Proofs.WordWriting

/-! # Separators in written words

The underscores of a text are dropped before the mark of a base is looked for. Where a text begins
with a digit and its mark stands in one piece, they separate digits, and the text is a written form
of the word in the base that it shows. But an underscore in front of the text, or between the zero
and the letter of the mark, is dropped all the same: such a text is read as a word too, the second
in a base that it does not show.
-/

namespace BitLayout.Word

open Text.Numeral (exists_zeros toLower_eq_self toUpper_toLower)

/-- The row begins with a digit, and with the mark of the base in one piece. -/
structure Separated (base : Base) (body : List Char) : Prop where
  digit : ∃ c ∈ body.head?, c.isDigit = true
  mark : base.mark <+: body.map Char.toLower

/-- An underscore stands at the front of the row, or inside the mark of the base. -/
inductive Strays (base : Base) : List Char → Prop
  | front (rest : List Char) : Strays base ('_' :: rest)
  | mark (rest : List Char) : base ≠ .decimal → Strays base ('0' :: '_' :: rest)

variable {base : Base} {w : Word} {c : Char} {cs ds body : List Char} {digits : List Nat}
  {text : String}

/-- Every row is a way to write what cleaning leaves of it. -/
theorem spread_map_toLower_filter (ds : List Char) :
    Spread ((ds.filter (· != '_')).map Char.toLower) ds := by
  induction ds with
  | nil => exact .nil
  | cons d ds ih =>
    by_cases h : d = '_'
    · subst h
      exact .underscore ih
    · rw [List.filter_cons_of_pos (by simpa using h), List.map_cons]
      refine .char ?_ ih
      cases hd : d.isUpper with
      | false => exact .inl (toLower_eq_self hd).symm
      | true => exact .inr (toUpper_toLower hd).symm

theorem Spread.cons_cases (h : Spread (c :: cs) ds) :
    (∃ es, ds = '_' :: es) ∨ ∃ d es, ds = d :: es ∧ (d = c ∨ d = c.toUpper) ∧ Spread cs es := by
  cases h with
  | char hd hs => exact .inr ⟨_, _, rfl, hd, hs⟩
  | underscore => exact .inl ⟨_, rfl⟩

theorem isDigit_of_digitChar {n : Nat} (hn : n < 10)
    (hc : c = Nat.digitChar n ∨ c = (Nat.digitChar n).toUpper) : c.isDigit = true := by
  have all : ∀ n < 10, (Nat.digitChar n).isDigit = true ∧
      (Nat.digitChar n).toUpper.isDigit = true := by decide
  rcases hc with rfl | rfl
  · exact (all n hn).1
  · exact (all n hn).2

theorem Separated.not_strays (h : Separated base body) : ¬ Strays base body := by
  rintro (rest | ⟨rest, hb⟩)
  · obtain ⟨c, ⟨⟩, hd⟩ := h.digit
    exact absurd hd (by decide)
  · obtain ⟨letter, hm, hl⟩ := Base.exists_letter hb
    have hp := h.mark
    rw [hm] at hp
    obtain rfl : letter = '_' := (List.cons_prefix_cons.mp (List.cons_prefix_cons.mp hp).2).1
    exact absurd rfl hl.1.ne_underscore

/-- Unless an underscore strays, the mark stands in front of the digits in one piece. -/
theorem separated_of_spread (hne : digits ≠ []) (hlt : ∀ d ∈ digits, d < base.radix)
    (hs : Spread (base.mark ++ digits.map Nat.digitChar) body) (hn : ¬ Strays base body) :
    Separated base body ∧ ∃ mark rest, body = mark ++ rest ∧
      List.Forall₂ (fun c d => d = c ∨ d = c.toUpper) base.mark mark ∧
      Spread (digits.map Nat.digitChar) rest := by
  -- without a mark, the first digit begins the row unless an underscore does
  by_cases hb : base = .decimal
  · subst hb
    obtain ⟨n, digits, rfl⟩ := List.exists_cons_of_ne_nil hne
    rcases hs.cons_cases with ⟨es, rfl⟩ | ⟨d, es, rfl, hd, -⟩
    · exact absurd (.front es) hn
    · have hdigit := isDigit_of_digitChar (hlt n List.mem_cons_self) hd
      exact ⟨⟨⟨d, rfl, hdigit⟩, List.nil_prefix⟩, [], _, rfl, .nil, hs⟩
  · obtain ⟨letter, hm, hl⟩ := Base.exists_letter hb
    rw [hm] at hs
    rcases hs.cons_cases with ⟨es, rfl⟩ | ⟨z, es, rfl, hz, htail⟩
    · exact absurd (.front es) hn
    have hzero : z = '0' := by
      rcases hz with rfl | rfl
      · rfl
      · decide
    subst hzero
    rcases htail.cons_cases with ⟨es, rfl⟩ | ⟨d, es, rfl, hd, hrest⟩
    · exact absurd (.mark es hb) hn
    · refine ⟨⟨⟨'0', rfl, by decide⟩, ?_⟩, ['0', d], es, rfl, ?_, hrest⟩
      · rw [hm, List.map_cons, List.map_cons, (hl.lowers hd).toLower]
        exact List.prefix_append ['0', letter] _
      · rw [hm]
        exact .cons (.inl rfl) (.cons hd .nil)

/-- A text that is read as a word begins with a digit and with the mark of the base in which it
is read, unless an underscore strays to the front or into the mark. If none does, it is a written
form of the word in that base. -/
theorem ofText_separated_iff (h : ofText text = .ok w) :
    ∃ base row body, Announces (clean text) base row ∧ Text.Trims text.toList body ∧
      (Separated base body ↔ ¬ Strays base body) ∧
      (Separated base body → Written base w text.toList) := by
  obtain ⟨base, digits, hclean, hne, hlt, hv⟩ := ofText_eq_ok_iff.mp h
  have trims : Text.Trims text.toList (Text.trim text.toList) := Text.trim_eq_iff.mp rfl
  have hs : Spread (base.mark ++ digits.map Nat.digitChar) (Text.trim text.toList) := by
    rw [← hclean]
    exact spread_map_toLower_filter _
  refine ⟨base, digits.map Nat.digitChar, _, ?_, trims, ⟨Separated.not_strays, fun hn => ?_⟩,
    fun hsep => ?_⟩
  · rw [hclean]
    exact announces_digits hlt
  · exact (separated_of_spread hne hlt hs hn).1
  · obtain ⟨-, mark, rest, hbody, hm, hrest⟩ :=
      separated_of_spread hne hlt hs hsep.not_strays
    obtain ⟨zeros, hz⟩ := exists_zeros base.one_lt_radix hne hlt
    obtain ⟨front, back, htext, hf, hb⟩ := trims.surrounded
    rw [hz, hv] at hrest
    rw [htext, hbody]
    exact .intro zeros hf hm hrest hb

theorem ofText_separated_iff_sample :
    ofText " 0X_1f " = .ok 0x1f ∧ Written .hexadecimal 0x1f " 0X_1f ".toList := by
  have h : ofText " 0X_1f " = .ok 0x1f := by decide +kernel
  obtain ⟨base, row, body, ha, ht, hsep, hw⟩ := ofText_separated_iff h
  obtain rfl : ['0', 'X', '_', '1', 'f'] = body := Text.trim_eq_iff.mpr ht
  have hradix : 16 = base.radix := congrArg Prod.fst (splitBase_eq ha)
  cases base with
  | hexadecimal => exact ⟨h, hw (hsep.mpr nofun)⟩
  | _ => exact absurd hradix (by decide)

/-- Without its underscore, the one text shows another base, and the other one begins with a
digit. -/
theorem ofText_stray :
    ofText "0_x1" = .ok 1 ∧ Announces (clean "0_x1") .hexadecimal ['1'] ∧
      Text.Trims "0_x1".toList ['0', '_', 'x', '1'] ∧
      ¬ Separated .hexadecimal ['0', '_', 'x', '1'] ∧
    ofText "_1" = .ok 1 ∧ Announces (clean "_1") .decimal ['1'] ∧
      Text.Trims "_1".toList ['_', '1'] ∧ ¬ Separated .decimal ['_', '1'] := by
  refine ⟨by decide +kernel, ?_, Text.trim_eq_iff.mp rfl, fun h => ?_,
    by decide +kernel, ?_, Text.trim_eq_iff.mp rfl, fun h => ?_⟩
  · have hb : Base.hexadecimal ≠ .decimal := by decide
    exact .marked ['1'] hb
  · exact h.not_strays (.mark ['x', '1'] (by decide))
  · have hd : ∀ d ∈ [1], d < Base.decimal.radix := by decide
    exact announces_digits hd
  · exact h.not_strays (.front ['1'])

end BitLayout.Word
