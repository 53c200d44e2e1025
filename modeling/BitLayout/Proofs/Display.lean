import BitLayout.Proofs.Instruction
import BitLayout.Proofs.Numeral

/-! # Displays

In a quoted text a character stands for itself or behind a backslash as the escape that names it,
and a quote or a backslash never stands for itself. So a quoted text ends at its first quote that
is no escape, and the parts of a display are found again from left to right, whatever is written
in them. Different parameters have different displays, and so have different instructions.
-/

namespace BitLayout

namespace Text

open Numeral (denotes_write numeral_stop_inj)

/-- The ways to write a character inside quotes. -/
inductive Escaped : Char → List Char → Prop
  | itself {c : Char} : c ≠ '"' → c ≠ '\\' → Escaped c [c]
  | letter {c letter : Char} : shortEscape? c = some letter → Escaped c ['\\', letter]
  | codePoint (c : Char) : Escaped c (codePointEscape c)

variable {c d letter : Char} {cs ds r t : List Char} {a b : String}

/-- Where no code begins like another or with the stop, a row of codes is read off from left to
right. -/
theorem flatMap_append_stop_inj {α : Type} {P : α → Prop} {code : α → List Char} {stop : Char}
    (hcode : ∀ a b r t, P a → P b → code a ++ r = code b ++ t → a = b ∧ r = t)
    (hstop : ∀ a r t, code a ++ r ≠ stop :: t) {as bs : List α}
    (ha : ∀ a ∈ as, P a) (hb : ∀ b ∈ bs, P b)
    (h : as.flatMap code ++ stop :: r = bs.flatMap code ++ stop :: t) : as = bs ∧ r = t := by
  induction as generalizing bs with
  | nil =>
    cases bs with
    | nil => exact ⟨rfl, (List.cons.inj h).2⟩
    | cons b bs =>
      rw [List.flatMap_cons, List.append_assoc] at h
      exact absurd h.symm (hstop b _ _)
  | cons a as ih =>
    rw [List.flatMap_cons, List.append_assoc] at h
    cases bs with
    | nil => exact absurd h (hstop a _ _)
    | cons b bs =>
      rw [List.flatMap_cons, List.append_assoc] at h
      obtain ⟨pa, pas⟩ := List.forall_mem_cons.mp ha
      obtain ⟨pb, pbs⟩ := List.forall_mem_cons.mp hb
      obtain ⟨rfl, hrest⟩ := hcode a b _ _ pa pb h
      obtain ⟨rfl, rfl⟩ := ih pas pbs hrest
      exact ⟨rfl, rfl⟩

theorem shortEscape?_eq_none (h : shortEscape? c = none) : c ≠ '"' ∧ c ≠ '\\' := by
  constructor <;> rintro rfl <;> simp [shortEscape?] at h

/-- No two characters share a letter, and the mark of a code point is none of the letters. -/
theorem shortEscape?_inj (hc : shortEscape? c = some letter) (hd : shortEscape? d = some letter) :
    c = d := by
  unfold shortEscape? at hc hd
  split at hc <;> cases hc <;> split at hd <;> first | rfl | cases hd

theorem shortEscape?_ne (h : shortEscape? c = some letter) : letter ≠ 'u' := by
  unfold shortEscape? at h
  split at h <;> cases h <;> decide

theorem codePointEscape_append_inj (h : codePointEscape c ++ r = codePointEscape d ++ t) :
    c = d ∧ r = t := by
  have denotes (c : Char) : Numeral.Denotes 16 (Numeral.write 16 c.toNat) c.toNat :=
    denotes_write (by decide) c.toNat
  have hdigits : (Numeral.write 16 c.toNat).toList ++ '\x7d' :: r =
      (Numeral.write 16 d.toNat).toList ++ '\x7d' :: t := by
    simpa [codePointEscape, Numeral.write] using h
  obtain ⟨hn, hr⟩ := numeral_stop_inj (by decide) (by decide) (denotes c) (denotes d) hdigits
  exact ⟨Char.toNat_inj.mp hn, hr⟩

theorem escaped_quoteChar (c : Char) : Escaped c (quoteChar c) := by
  unfold quoteChar
  cases h : shortEscape? c with
  | some letter => exact .letter h
  | none =>
    obtain ⟨hq, hb⟩ := shortEscape?_eq_none h
    cases isShapeless c with
    | true => exact .codePoint c
    | false => exact .itself hq hb

/-- A row begins with one written character at most. -/
theorem Escaped.append_inj (hc : Escaped c cs) (hd : Escaped d ds) (h : cs ++ r = ds ++ t) :
    c = d ∧ r = t := by
  cases hc with
  | itself hq hb =>
    cases hd with
    | itself => exact List.cons.inj h
    | letter => exact absurd (List.cons.inj h).1 hb
    | codePoint => exact absurd (List.cons.inj h).1 hb
  | letter hl =>
    cases hd with
    | itself hq hb => exact absurd (List.cons.inj h).1.symm hb
    | letter hm =>
      obtain ⟨rfl, rfl⟩ := List.cons.inj (List.cons.inj h).2
      exact ⟨shortEscape?_inj hl hm, rfl⟩
    | codePoint => exact absurd (List.cons.inj (List.cons.inj h).2).1 (shortEscape?_ne hl)
  | codePoint =>
    cases hd with
    | itself hq hb => exact absurd (List.cons.inj h).1.symm hb
    | letter hm => exact absurd (List.cons.inj (List.cons.inj h).2).1.symm (shortEscape?_ne hm)
    | codePoint => exact codePointEscape_append_inj h

theorem Escaped.append_ne (hc : Escaped c cs) : cs ++ r ≠ '"' :: t := by
  intro h
  cases hc with
  | itself hq => exact hq (List.cons.inj h).1
  | letter => exact absurd (List.cons.inj h).1 (by decide)
  | codePoint => exact absurd (List.cons.inj h).1 (by decide)

theorem flatMap_quoteChar_append_inj
    (h : cs.flatMap quoteChar ++ '"' :: r = ds.flatMap quoteChar ++ '"' :: t) :
    cs = ds ∧ r = t := by
  refine flatMap_append_stop_inj ?_ ?_ (fun c _ => trivial) (fun d _ => trivial) h
  · intro c d r t _ _
    exact (escaped_quoteChar c).append_inj (escaped_quoteChar d)
  · intro c r t
    exact (escaped_quoteChar c).append_ne

theorem toList_quote (s : String) :
    (quote s).toList = '"' :: (s.toList.flatMap quoteChar ++ ['"']) := by
  rw [quote, String.toList_ofList]

theorem quote_append_inj (h : (quote a).toList ++ r = (quote b).toList ++ t) : a = b ∧ r = t := by
  simp only [toList_quote, List.cons_append, List.append_assoc, List.nil_append, List.cons.injEq,
    true_and] at h
  obtain ⟨hab, hr⟩ := flatMap_quoteChar_append_inj h
  exact ⟨String.toList_inj.mp hab, hr⟩

end Text

namespace Parameter

variable {p q : Parameter} {ps qs : List Parameter} {a b : Option String} {r t : List Char}

theorem displayDescription_append_inj
    (h : (displayDescription a).toList ++ r = (displayDescription b).toList ++ t) :
    a = b ∧ r = t := by
  cases a with
  | none =>
    cases b with
    | none => exact ⟨rfl, List.append_cancel_left h⟩
    | some b => simp [displayDescription, Text.toList_quote] at h
  | some a =>
    cases b with
    | none => simp [displayDescription, Text.toList_quote] at h
    | some b =>
      obtain ⟨rfl, hr⟩ := Text.quote_append_inj h
      exact ⟨rfl, hr⟩

theorem toList_display (p : Parameter) : p.display.toList = "Parameter(name=".toList ++
    ((Text.quote p.name).toList ++ (", source=".toList ++ ((Text.quote p.source).toList ++
      (", description=".toList ++ ((displayDescription p.description).toList ++ [')']))))) := by
  unfold display
  simp only [String.toList_append, List.append_assoc]
  rfl

theorem Valid.display_append_inj (hp : p.Valid) (hq : q.Valid)
    (h : p.display.toList ++ r = q.display.toList ++ t) : p = q ∧ r = t := by
  simp only [toList_display, List.append_assoc] at h
  obtain ⟨hname, h⟩ := Text.quote_append_inj (List.append_cancel_left h)
  obtain ⟨hsource, h⟩ := Text.quote_append_inj (List.append_cancel_left h)
  obtain ⟨hdescription, h⟩ := displayDescription_append_inj (List.append_cancel_left h)
  exact ⟨(hp.eq_iff hq).mpr ⟨hname, hsource, hdescription⟩, List.append_cancel_left h⟩

theorem display_append_ne (p : Parameter) : p.display.toList ++ r ≠ ']' :: t := by
  intro h
  rw [toList_display] at h
  exact absurd (List.cons.inj h).1 (by decide)

theorem toList_displays (p : Parameter) (ps : List Parameter) :
    (", ".intercalate ((p :: ps).map display)).toList =
      p.display.toList ++ ps.flatMap fun q => ',' :: ' ' :: q.display.toList := by
  induction ps generalizing p with
  | nil => rw [List.map_singleton, String.intercalate_singleton, List.flatMap_nil, List.append_nil]
  | cons q ps ih =>
    have hne : (q :: ps).map display ≠ [] := List.cons_ne_nil _ _
    have hcomma : ", ".toList = [',', ' '] := rfl
    rw [List.map_cons, String.intercalate_cons_of_ne_nil hne, String.toList_append,
      String.toList_append, ih, List.flatMap_cons, List.append_assoc, hcomma]
    simp only [List.cons_append, List.nil_append]

theorem displaysTail_append_inj (hp : ∀ p ∈ ps, p.Valid) (hq : ∀ q ∈ qs, q.Valid)
    (h : (ps.flatMap fun p => ',' :: ' ' :: p.display.toList) ++ ']' :: r =
      (qs.flatMap fun q => ',' :: ' ' :: q.display.toList) ++ ']' :: t) : ps = qs ∧ r = t := by
  refine Text.flatMap_append_stop_inj ?_ ?_ hp hq h
  · intro p q r t hp hq hpq
    simp only [List.cons_append, List.cons.injEq, true_and] at hpq
    exact hp.display_append_inj hq hpq
  · intro p r t hp
    simp only [List.cons_append, List.cons.injEq] at hp
    exact absurd hp.1 (by decide)

theorem displays_append_inj (hp : ∀ p ∈ ps, p.Valid) (hq : ∀ q ∈ qs, q.Valid)
    (h : (", ".intercalate (ps.map display)).toList ++ ']' :: r =
      (", ".intercalate (qs.map display)).toList ++ ']' :: t) : ps = qs ∧ r = t := by
  cases ps with
  | nil =>
    cases qs with
    | nil => exact ⟨rfl, (List.cons.inj h).2⟩
    | cons q qs =>
      rw [toList_displays, List.append_assoc] at h
      exact absurd h.symm q.display_append_ne
  | cons p ps =>
    rw [toList_displays, List.append_assoc] at h
    cases qs with
    | nil => exact absurd h p.display_append_ne
    | cons q qs =>
      rw [toList_displays, List.append_assoc] at h
      obtain ⟨hpv, hpsv⟩ := List.forall_mem_cons.mp hp
      obtain ⟨hqv, hqsv⟩ := List.forall_mem_cons.mp hq
      obtain ⟨rfl, htail⟩ := hpv.display_append_inj hqv h
      obtain ⟨rfl, rfl⟩ := displaysTail_append_inj hpsv hqsv htail
      exact ⟨rfl, rfl⟩

end Parameter

namespace Instruction

variable {i j : Instruction}

theorem toList_display (i : Instruction) : i.display.toList = "Instruction(name=".toList ++
    ((Text.quote i.name).toList ++ (", description=".toList ++
      ((Parameter.displayDescription i.description).toList ++ (", parameters=[".toList ++
        ((", ".intercalate (i.parameters.map Parameter.display)).toList ++ ']' ::
          (", architecture=".toList ++ ((Text.quote i.architecture.tag).toList ++ [')']))))))) := by
  unfold display
  simp only [String.toList_append, List.append_assoc]
  rfl

theorem Valid.display_inj (hi : i.Valid) (hj : j.Valid) (h : i.display = j.display) : i = j := by
  rw [← String.toList_inj, toList_display, toList_display] at h
  obtain ⟨hname, h⟩ := Text.quote_append_inj (List.append_cancel_left h)
  obtain ⟨hdescription, h⟩ := Parameter.displayDescription_append_inj (List.append_cancel_left h)
  obtain ⟨hparameters, h⟩ :=
    Parameter.displays_append_inj hi.parameters hj.parameters (List.append_cancel_left h)
  obtain ⟨htag, -⟩ := Text.quote_append_inj (List.append_cancel_left h)
  have harchitecture : i.architecture = j.architecture := Architecture.tag_injective htag
  cases i
  cases j
  simp_all only

end Instruction

/-- The display of a parameter is that of no other parameter, and the display of an instruction is
that of no other instruction, whatever is written in the names, sources and descriptions. -/
theorem displays_eq_iff :
    (∀ p q : Parameter, p.Reachable → q.Reachable → (p.display = q.display ↔ p = q)) ∧
      ∀ i j : Instruction, i.Reachable → j.Reachable → (i.display = j.display ↔ i = j) := by
  refine ⟨fun p q hp hq => ⟨fun h => ?_, congrArg _⟩, fun i j hi hj => ⟨fun h => ?_, congrArg _⟩⟩
  · have htext : p.display.toList ++ [] = q.display.toList ++ [] := by rw [h]
    exact (hp.valid.display_append_inj hq.valid htext).1
  · exact hi.valid.display_inj hj.valid h

/-- A description that is the word for its absence, and one that holds the end of a display and
the beginning of the next. -/
theorem displays_eq_iff_sample :
    let plain : Parameter := ⟨"lo", "0-0", none, [⟨0, .bits 0 0⟩]⟩
    let named : Parameter := ⟨"lo", "0-0", some "None", [⟨0, .bits 0 0⟩]⟩
    let high : Parameter := ⟨"hi", "1-1", some "b", [⟨0, .bits 1 1⟩]⟩
    let both : Parameter := ⟨"lo", "0-0",
      some "None), Parameter(name=\"hi\", source=\"1-1\", description=\"b", [⟨0, .bits 0 0⟩]⟩
    let i : Instruction := ⟨"ld", none, [named, high], .bits8⟩
    let j : Instruction := ⟨"ld", none, [both], .bits8⟩
    plain.Reachable ∧ named.Reachable ∧ plain.display ≠ named.display ∧
      i.Reachable ∧ j.Reachable ∧ i.display ≠ j.display := by
  intro plain named high both i j
  have hplain : plain.Reachable := Parameter.reachable_iff_valid.mpr (by decide +kernel)
  have hnamed : named.Reachable := Parameter.reachable_iff_valid.mpr (by decide +kernel)
  have hi : i.Reachable :=
    Instruction.reachable_iff_valid.mpr ⟨by decide, by decide, by decide +kernel⟩
  have hj : j.Reachable :=
    Instruction.reachable_iff_valid.mpr ⟨by decide, by decide, by decide +kernel⟩
  obtain ⟨parameters, instructions⟩ := displays_eq_iff
  refine ⟨hplain, hnamed, fun h => ?_, hi, hj, fun h => ?_⟩
  · exact absurd ((parameters plain named hplain hnamed).mp h) (by decide)
  · exact absurd ((instructions i j hi hj).mp h) (by decide)

end BitLayout
