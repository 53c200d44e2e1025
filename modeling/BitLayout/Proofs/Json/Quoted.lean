import Mathlib.Tactic.IntervalCases
import BitLayout.Json.Quoted
import BitLayout.Proofs.Outcome

/-! # Written strings

Each character of a written string reads back as itself, whether it stands for
itself, has a letter as its escape or is written by its number.
-/

namespace BitLayout.Json

variable {c : Char} {rest : List Char}

theorem readChars_skip (read rest : List Char) :
    readChars read.length (read ++ rest) = readChars 0 rest := by
  induction read with
  | nil => rfl
  | cons c read ih => rw [List.length_cons, List.cons_append, readChars, ih]

/-- An escape stands for its character, and its spelling is left behind. -/
theorem readChars_escape (spelling : List Char)
    (h : readEscape (spelling ++ rest) = .ok (c, spelling.length)) :
    readChars 0 ('\\' :: (spelling ++ rest)) = (do
      let (ds, rest) ← readChars 0 rest
      .ok (c :: ds, rest)) := by
  rw [readChars, if_neg (by decide), if_pos rfl, h, Outcome.ok_bind]
  simp only [readChars_skip]

theorem readEscape_letter {letter : Char} (h : letterOf? c = some letter) :
    readEscape (letter :: rest) = .ok (c, 1) := by
  unfold letterOf? at h
  split at h <;> cases h <;> rfl

theorem leftpad_control {n : Nat} (h : n < 32) :
    (List.leftpad 4 '0' (Nat.toDigits 16 n)).length = 4 ∧
      readUnit (List.leftpad 4 '0' (Nat.toDigits 16 n)) = .ok n := by
  interval_cases n <;> exact ⟨rfl, rfl⟩

theorem readUnit_append {four : List Char} (h : four.length = 4) (rest : List Char) :
    readUnit (four ++ rest) = readUnit four := by
  rw [readUnit, readUnit, List.take_append_of_le_length (by omega), ← h, List.take_length]

theorem readEscape_control (h : c < ' ') :
    readEscape ('u' :: (List.leftpad 4 '0' (Nat.toDigits 16 c.toNat) ++ rest)) = .ok (c, 5) := by
  have hn : c.toNat < 32 := h
  obtain ⟨hl, hu⟩ := leftpad_control hn
  have ht : isTrailing c.toNat = false := by
    simp [isTrailing]
    omega
  have hd : isLeading c.toNat = false := by
    simp [isLeading]
    omega
  rw [readEscape, readUnits, readUnit_append hl, hu, Outcome.ok_bind, ht, hd, Char.ofNat_toNat]
  rfl

theorem letterOf?_eq_none (h : letterOf? c = none) : c ≠ '"' ∧ c ≠ '\\' := by
  constructor <;> rintro rfl <;> simp [letterOf?] at h

theorem readChars_writeChar (c : Char) (rest : List Char) :
    readChars 0 (writeChar c ++ rest) = (do
      let (ds, rest) ← readChars 0 rest
      .ok (c :: ds, rest)) := by
  unfold writeChar
  cases hl : letterOf? c with
  | some letter => exact readChars_escape [letter] (readEscape_letter hl)
  | none =>
    obtain ⟨hq, hb⟩ := letterOf?_eq_none hl
    by_cases hc : c < ' '
    · have hlen := (leftpad_control (show c.toNat < 32 from hc)).1
      rw [if_pos hc]
      refine readChars_escape ('u' :: List.leftpad 4 '0' (Nat.toDigits 16 c.toNat)) ?_
      rw [List.cons_append, List.length_cons, hlen]
      exact readEscape_control hc
    · rw [if_neg hc, List.singleton_append, readChars, if_neg hq, if_neg hb, if_neg hc]

theorem readChars_flatMap (cs rest : List Char) :
    readChars 0 (cs.flatMap writeChar ++ '"' :: rest) = .ok (cs, rest) := by
  induction cs with
  | nil => rfl
  | cons c cs ih =>
    rw [List.flatMap_cons, List.append_assoc, readChars_writeChar, ih]
    rfl

theorem readString_write (s : String) (rest : List Char) :
    readString (s.toList.flatMap writeChar ++ '"' :: rest) = .ok (s, rest) := by
  rw [readString, readChars_flatMap, Outcome.ok_bind]
  exact congrArg (fun s => Except.ok (s, rest)) (String.ofList_toList (s := s))

end BitLayout.Json
