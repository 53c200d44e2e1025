import BitLayout.Slice

/-! # Layouts

A layout is the list of slices of a value, most significant first. A source
spells one as tokens between commas. The last token lands at bit 0, and every
other token above all that follow it, so the tokens are read from right to left
and the rightmost bad one is reported.
-/

namespace BitLayout

/-- The slices of a value, most significant first. -/
abbrev Layout := List Slice

namespace Layout

def width : Layout → Nat
  | [] => 0
  | s :: rest => s.length + width rest

def value (w : Word) : Layout → Word
  | [] => 0
  | s :: rest => s.value w + value w rest

/-- The greatest offset that is counted, all 32 bits set; a longer sum stays there. -/
def offsetLimit : Nat := 0xffffffff

def tokens (source : String) : List String := (source.toList.splitOn ',').map String.ofList

/-- The slices that a row of tokens stands for, and the offset above the first of them. -/
def ofTokens : List String → Except EncodingError (Layout × Nat)
  | [] => .ok ([], 0)
  | token :: rest => do
    let (slices, offset) ← ofTokens rest
    let slice ← Slice.ofToken token offset
    .ok (slice :: slices, min (offset + slice.length) offsetLimit)

/-- The layout that a source spells; the empty source spells the empty one. -/
def ofSource (source : String) : Except EncodingError Layout :=
  if source.isEmpty then .ok []
  else do
    let (slices, offset) ← ofTokens (tokens source)
    if wordBits < offset then .error (.fieldTooWide source offset) else .ok slices

end Layout

end BitLayout
