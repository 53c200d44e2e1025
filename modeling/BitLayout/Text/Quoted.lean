import BitLayout.Text.Extender
import BitLayout.Text.Ignorable
import BitLayout.Text.Numeral
import BitLayout.Text.Unprintable

/-! # Quoted text

Quoting puts a text between double quotes so that every character can be told
apart on paper. A character is written as itself, or as a backslash escape when
it is a quote, a backslash, a grapheme extender, ignorable or unprintable.
-/

namespace BitLayout.Text

def shortEscape? : Char → Option Char
  | '\x00' => some '0'
  | '\t' => some 't'
  | '\n' => some 'n'
  | '\r' => some 'r'
  | '"' => some '"'
  | '\\' => some '\\'
  | _ => none

def codePointEscape (c : Char) : List Char :=
  '\\' :: 'u' :: '\x7b' :: (Nat.toDigits 16 c.toNat ++ ['\x7d'])

/-- The test that a character cannot be told from its surroundings by its own shape. -/
def isShapeless (c : Char) : Bool := isExtender c || isIgnorable c || isUnprintable c

def quoteChar (c : Char) : List Char :=
  match shortEscape? c with
  | some letter => ['\\', letter]
  | none => if isShapeless c then codePointEscape c else [c]

def quote (s : String) : String :=
  String.ofList ('"' :: (s.toList.flatMap quoteChar ++ ['"']))

end BitLayout.Text
