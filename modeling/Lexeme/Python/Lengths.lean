import Lexeme.Python.Lexer
import Lexeme.Text.Bytes

/-!
# Lengths of Python tokens in bytes

The lexer of `Lexeme.Python.Lexer` splits texts between characters. A scanner that holds its text as bytes asks instead how
many bytes a token takes, and cuts them off afterwards. It looks at digits byte by byte, and steps over a point, a sign, a
quote or the letter of a base by a fixed number of bytes.

Every cut on the way to a length is made here as the scanner makes it, and may fail: a length is `none` if the text would be
cut inside a character or behind its end. Where the scanner asks whether there is a token at all, the answer is an option
inside that.
-/

namespace Lexeme.Python

open Text (byteCount bytes firstBytes? afterBytes? find?)

/-! ## Runs of characters -/

/-- The bytes of the characters at the beginning of a text that `p` accepts. -/
def spanLength (p : Char → Bool) (s : List Char) : Nat := (find? (!p ·) s).getD (byteCount s)

def whitespaceLength (s : List Char) : Nat := spanLength isBlank s

/-- The bytes of the line break at the beginning of a text, if there is one. -/
def lineBreakLength (s : List Char) : Nat :=
  if ['\r', '\n'].isPrefixOf s then 2 else if s.head?.any isLineBreak then 1 else 0

/-! ## Numbers -/

/-- Whether a byte lies between those of two characters. -/
def isByteIn (first last : Char) (b : UInt8) : Bool := first.toUInt8 ≤ b && b ≤ last.toUInt8

def isDecimalByte (b : UInt8) : Bool := isByteIn '0' '9' b

/-- How many bytes a text begins with that `accept` accepts or that are underscores. -/
def digitsLength (accept : UInt8 → Bool) (s : List Char) : Nat :=
  (bytes s).findIdx fun b => !(accept b || b = '_'.toUInt8)

/-- The digits of a number to the base that the letter after a leading zero names. -/
def radixByte? (letter : UInt8) : Option (UInt8 → Bool) :=
  if letter = 'x'.toUInt8 ∨ letter = 'X'.toUInt8 then
    some fun b => isDecimalByte b || isByteIn 'a' 'f' b || isByteIn 'A' 'F' b
  else if letter = 'o'.toUInt8 ∨ letter = 'O'.toUInt8 then some (isByteIn '0' '7')
  else if letter = 'b'.toUInt8 ∨ letter = 'B'.toUInt8 then some fun b => b = '0'.toUInt8 || b = '1'.toUInt8
  else none

/-- The digits after the letter of a base, if more than two bytes begin with a zero and such a letter. -/
def radix? : List UInt8 → Option (UInt8 → Bool)
  | zero :: letter :: _ :: _ => if zero = '0'.toUInt8 then radixByte? letter else none
  | _ => none

/-- The length after a point and the digits that follow it. -/
def addFraction? (s : List Char) (length : Nat) : Option Nat := do
  if (← afterBytes? length s).head? = some '.' then
    return length + 1 + digitsLength isDecimalByte (← afterBytes? (length + 1) s)
  else return length

/-- The length after an exponent, if it has digits. -/
def addExponent? (s : List Char) (length : Nat) : Option Nat := do
  let exponent ← afterBytes? length s
  if exponent.head?.any fun c => c = 'e' || c = 'E' then
    let sign := if (← afterBytes? 1 exponent).head?.any fun c => c = '+' || c = '-' then 1 else 0
    let digits := digitsLength isDecimalByte (← afterBytes? (1 + sign) exponent)
    return if 0 < digits then length + (1 + sign + digits) else length
  else return length

/-- The length after the letter of an imaginary number. -/
def addImaginary? (s : List Char) (length : Nat) : Option Nat := do
  return if (← afterBytes? length s).head?.any fun c => c = 'j' || c = 'J' then length + 1 else length

def decimalLength? (s : List Char) : Option Nat := do
  addImaginary? s (← addExponent? s (← addFraction? s (digitsLength isDecimalByte s)))

/-- The bytes of the number at the beginning of a text. -/
def numberLength? (s : List Char) : Option Nat :=
  match radix? (bytes s) with
  | some accept => return 2 + digitsLength accept (← afterBytes? 2 s)
  | none => decimalLength? s

/-! ## Strings -/

/-- Whether a quote follows the letters `mark`, in either case, at the beginning of a text. The letters are compared only if
their bytes can be cut off. -/
def fits? (s mark : List Char) : Option Bool :=
  match firstBytes? (byteCount mark) s with
  | none => return false
  | some candidate =>
    return (← afterBytes? (byteCount mark) s).head?.any isQuote && candidate.map Char.toLower = mark

/-- The bytes of the letters before the quote, if a string begins the text. -/
def stringPrefixLength? (s : List Char) : Option (Option Nat) :=
  if s.head?.any isQuote then return some 0
  else return (← stringPrefixes.findM? (fits? s)).map byteCount

/-- Reads on to the closing quotes of a string: `body` is the text from its opening quotes on, which take `opening` bytes,
and `index` counts the bytes that have been read after them. The letters before the quotes take `mark` bytes. -/
def closeLength? (quote : Char) (triple : Bool) (mark opening : Nat) (body : List Char) (index : Nat) :
    List Char → Option (Option Nat)
  | [] => return none
  | c :: rest =>
    if c = '\\' then
      match rest with
      | [] => return none
      | d :: rest => closeLength? quote triple mark opening body (index + c.utf8Size + d.utf8Size) rest
    else if isLineBreak c && !triple then return none
    else if c = quote then
      if !triple then return some (mark + (opening + index) + 1)
      else do
        if [quote, quote, quote].isPrefixOf (← afterBytes? (opening + index) body) then
          return some (mark + (opening + index) + 3)
        else closeLength? quote triple mark opening body (index + c.utf8Size) rest
    else closeLength? quote triple mark opening body (index + c.utf8Size) rest

/-- The bytes of the string at the beginning of a text, if it ends; the letters before its quotes take `mark` bytes. -/
def stringLength? (s : List Char) (mark : Nat) : Option (Option Nat) := do
  let body ← afterBytes? mark s
  match body.head? with
  | none => return none
  | some quote =>
    let triple := [quote, quote, quote].isPrefixOf body
    let opening := if triple then 3 else 1
    closeLength? quote triple mark opening body 0 (← afterBytes? opening body)

end Lexeme.Python
