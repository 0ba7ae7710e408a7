import Lexeme.Text.Printable

/-!
# Quoted text in messages

A message shows a piece of text between quotation marks so that every character of it can be told apart: the mark
itself and the backslash are escaped, the usual controls have a letter, and whatever does not show as itself is
written as a code point in braces.
-/

namespace Lexeme.Text

/-- The digits of `n` to base sixteen, in lower case and without leading zeros. -/
def hexDigits (n : Nat) : List Char :=
  Nat.toDigits 16 n

/-- One character as it stands between two marks `mark`. -/
def showChar (mark c : Char) : List Char :=
  if c = '\x00' then ['\\', '0']
  else if c = '\t' then ['\\', 't']
  else if c = '\r' then ['\\', 'r']
  else if c = '\n' then ['\\', 'n']
  else if c = '\\' ∨ c = mark then ['\\', c]
  else if isPrintable c then [c]
  else ['\\', 'u', '\x7b'] ++ hexDigits c.toNat ++ ['\x7d']

/-- A text between double quotation marks. -/
def quoted (s : String) : String :=
  String.ofList ('"' :: s.toList.flatMap (showChar '"') ++ ['"'])

/-- A character between apostrophes. -/
def quotedChar (c : Char) : String :=
  String.ofList ('\'' :: showChar '\'' c ++ ['\''])

end Lexeme.Text
