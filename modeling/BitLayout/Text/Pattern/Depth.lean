/-! # Depth of a pattern

Every group, repetition, bracket and operator of a pattern is one level deep, and
so is every row of two parts or more. A matcher takes patterns up to a depth.
-/

namespace BitLayout.Text.Pattern

def depthLimit : Nat := 250

/-- How many parts stand in a row, and how deep the deepest of them is. -/
structure Row where
  count : Nat
  deepest : Nat
deriving DecidableEq, Repr

namespace Row

def empty : Row := ⟨0, 0⟩

def add (r : Row) (depth : Nat) : Row := ⟨r.count + 1, max r.deepest depth⟩

def grow (r : Row) (depth : Nat) : Row := ⟨r.count, max r.deepest depth⟩

/-- The depth of a row: a part that is alone makes no level. -/
def depth (r : Row) : Nat := if r.count ≤ 1 then r.deepest else r.deepest + 1

end Row

end BitLayout.Text.Pattern
