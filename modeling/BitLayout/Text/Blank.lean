import BitLayout.Text.CodePoints

/-! # Blank characters

A character is blank when it has the Unicode property White_Space. Trimming
removes the blanks at both ends of a text and keeps those between.
-/

namespace BitLayout.Text

/-- The characters with the property White_Space. -/
def blanks : CodePoints :=
  [(0x9, 0xd), (0x20, 0x20), (0x85, 0x85), (0xa0, 0xa0), (0x1680, 0x1680), (0x2000, 0x200a),
   (0x2028, 0x2029), (0x202f, 0x202f), (0x205f, 0x205f), (0x3000, 0x3000)]

def isBlank (c : Char) : Bool := blanks.has c

def trimEnd (cs : List Char) : List Char := (cs.reverse.dropWhile isBlank).reverse

def trim (cs : List Char) : List Char := trimEnd (cs.dropWhile isBlank)

end BitLayout.Text
