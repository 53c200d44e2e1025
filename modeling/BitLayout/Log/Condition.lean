import BitLayout.Log.Event
import BitLayout.Text.Decimal
import BitLayout.Text.Pattern

/-! # Log conditions

A condition stands in brackets behind the target of a directive. In braces it
names a field that an event has to carry; all else that it may say, a name before
the braces or a value of the field, is about the span of work that an event lies
in. No event lies in a span, so such a condition never holds. A value is a number
or a pattern.

The blanks in front of a directive count for the place of its parts but not for
its signs. So each sign comes beside the character that stands in its place when
the blanks are moved to the end.
-/

namespace BitLayout.Log

/-- The text of a directive: each sign beside the character that a part takes in its place. -/
abbrev Signs := List (Char × Char)

namespace Signs

/-- The signs of a text, those of the blanks in front moved to the end. -/
def ofText (text : List Char) : Signs :=
  (text.dropWhile Text.isBlank ++ text.takeWhile Text.isBlank).zip text

def part (signs : Signs) : List Char := signs.map (·.2)

end Signs

/-- What a directive asks of an event besides its target. -/
inductive Condition where
  | always
  | field (name : String)
  | span
deriving DecidableEq, Repr

namespace Condition

def holds (e : Event) : Condition → Bool
  | always => true
  | field name => e.fields.contains name
  | span => false

def fieldCount : Condition → Nat
  | always => 0
  | field _ => 1
  | span => 0

def isValue : List Char → Bool
  | '+' :: cs => Text.Decimal.isUnsigned cs
  | text => Text.Pattern.isPattern text

/-- The condition that a text in braces spells; what follows a second equals sign is dropped. -/
def ofField? (text : List Char) : Option Condition :=
  if text.isEmpty then none
  else
    match text.span (· != '=') with
    | (name, []) => some (field (String.ofList name))
    | (_, _ :: rest) => if isValue (rest.takeWhile (· != '=')) then some span else none

def readInside? (signs : Signs) : Option (Condition × Signs) :=
  match signs.span fun c => c.1 != ']' && c.1 != '\x7b' with
  | (_, (']', _) :: rest) => some (span, rest)
  | (name, ('\x7b', _) :: inner) =>
    match inner.span (·.1 != '\x7d') with
    | (text, ('\x7d', _) :: (']', _) :: rest) =>
      (ofField? (Signs.part text)).map fun condition =>
        (if name.isEmpty then condition else span, rest)
    | _ => none
  | _ => none

/-- The condition that a text begins with, none outside brackets, and what is behind it. -/
def read? : Signs → Option (Condition × Signs)
  | ('[', _) :: inner => readInside? inner
  | signs => some (always, signs)

end Condition

end BitLayout.Log
