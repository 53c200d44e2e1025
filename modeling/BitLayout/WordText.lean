import BitLayout.Text.Blank
import BitLayout.Text.Numeral
import BitLayout.Word

/-! # Words in writing

A word is written in decimal, or in another base behind a mark: `0x` for sixteen,
`0o` for eight, `0b` for two. Blanks around it are dropped, underscores anywhere
in it, and letters may have either case. A sign is refused.
-/

namespace BitLayout

/-- Why a text is not a word; each cause keeps the text as it was given. -/
inductive WordError where
  | missingDigits (text : String)
  | signed (text : String)
  | badDigits (text : String) (cause : Text.Numeral.Fault)
deriving DecidableEq, Repr

def WordError.chain : WordError → List String
  | .missingDigits text => ["Missing digits in instruction word \"" ++ text ++ "\""]
  | .signed text => ["Instruction words are unsigned, got \"" ++ text ++ "\""]
  | .badDigits text cause => ["Invalid instruction word \"" ++ text ++ "\"", cause.message]

namespace Word

/-- The text without surrounding blanks and underscores, its letters lowered. -/
def clean (text : String) : List Char :=
  ((Text.trim text.toList).filter (· != '_')).map Char.toLower

def splitBase : List Char → Nat × List Char
  | '0' :: 'x' :: digits => (16, digits)
  | '0' :: 'o' :: digits => (8, digits)
  | '0' :: 'b' :: digits => (2, digits)
  | digits => (10, digits)

def ofText (text : String) : Except WordError Word :=
  match splitBase (clean text) with
  | (_, []) => .error (.missingDigits text)
  | (_, '+' :: _) => .error (.signed text)
  | (_, '-' :: _) => .error (.signed text)
  | (base, digits) =>
    ((Text.Numeral.read base limit digits).map (BitVec.ofNat wordBits)).mapError
      (.badDigits text)

end Word

end BitLayout
