import BitLayout.Text.CodePoints
import BitLayout.Text.Quoted

/-! # Terminal controls

A terminal acts on some control characters instead of showing them: bell,
backspace, form feed, escape, delete and those from U+0080 to U+009F. Such a
character is disarmed by writing a backslash escape with its code point for it.
Every other character stands for itself, line breaks and tabs among them. A
disarmed text holds no character that a terminal acts on.
-/

namespace BitLayout.Text

/-- The control characters that a terminal acts on. -/
def terminalControls : CodePoints := [(0x7, 0x8), (0xc, 0xc), (0x1b, 0x1b), (0x7f, 0x9f)]

def isTerminalControl (c : Char) : Bool := terminalControls.has c

/-- A character with its two hexadecimal digits in ASCII, and beyond it with the code point. -/
def disarmChar (c : Char) : List Char :=
  if isTerminalControl c then
    if c.toNat < 0x80 then '\\' :: 'x' :: List.leftpad 2 '0' (Nat.toDigits 16 c.toNat)
    else codePointEscape c
  else [c]

def disarm (s : String) : String := String.ofList (s.toList.flatMap disarmChar)

theorem toNat_lt_of_isTerminalControl {c : Char} (h : isTerminalControl c = true) :
    c.toNat < 0x100 := by
  have below : terminalControls.all (·.2 < 0x100) = true := rfl
  obtain ⟨r, hr, _, hc⟩ := CodePoints.has_iff.1 h
  have := List.all_eq_true.1 below r hr
  grind

theorem isTerminalControl_of_mem_toDigits {n : Nat} (hn : n < 0x100) {d : Char}
    (h : d ∈ Nat.toDigits 16 n) : isTerminalControl d = false := by
  have plain : (List.range 0x100).all
      (fun n => (Nat.toDigits 16 n).all (!isTerminalControl ·)) = true := by decide +kernel
  have := List.all_eq_true.1 (List.all_eq_true.1 plain n (List.mem_range.2 hn)) d h
  simpa using this

theorem isTerminalControl_of_mem_disarmChar {c d : Char} (h : d ∈ disarmChar c) :
    isTerminalControl d = false := by
  by_cases hc : isTerminalControl c = true
  · have digits : d ∈ Nat.toDigits 16 c.toNat → isTerminalControl d = false :=
      isTerminalControl_of_mem_toDigits (toNat_lt_of_isTerminalControl hc)
    have marks : d ∈ ['\\', 'x', 'u', '0', '\x7b', '\x7d'] → isTerminalControl d = false := by
      have plain : ['\\', 'x', 'u', '0', '\x7b', '\x7d'].all (!isTerminalControl ·) = true := rfl
      simpa using List.all_eq_true.1 plain d
    rw [disarmChar, if_pos hc] at h
    grind [codePointEscape, List.leftpad]
  · grind [disarmChar]

theorem isTerminalControl_of_mem_disarm {s : String} {d : Char} (h : d ∈ (disarm s).toList) :
    isTerminalControl d = false := by
  obtain ⟨c, _, hd⟩ := List.mem_flatMap.1 (by simpa [disarm] using h)
  exact isTerminalControl_of_mem_disarmChar hd

end BitLayout.Text
