/-!
# JSON strings

`escape` writes a text as the body of a JSON string, and `unescape` reads such a body back. Writing escapes what has
to be escaped and nothing else; reading accepts every escape of the format, surrogate pairs included, and refuses a
surrogate that stands alone.

Main statement: reading inverts writing (`unescape_escape`).
-/

namespace Lexeme.Json

/-- The digit of value `n < 16`, in lower case. -/
def hexDigit (n : Nat) : Char :=
  Nat.digitChar n

/-- The value of a digit to base sixteen, in either case. -/
def hexValue? (c : Char) : Option Nat :=
  if '0' ≤ c ∧ c ≤ '9' then some (c.toNat - '0'.toNat)
  else if 'a' ≤ c ∧ c ≤ 'f' then some (c.toNat - 'a'.toNat + 10)
  else if 'A' ≤ c ∧ c ≤ 'F' then some (c.toNat - 'A'.toNat + 10)
  else none

/-- The value of four digits to base sixteen. -/
def hexValue4? (a b c d : Char) : Option Nat := do
  return ((← hexValue? a) * 16 + (← hexValue? b)) * 256 + (← hexValue? c) * 16 + (← hexValue? d)

/-- One character in the body of a string. -/
def escapeChar (c : Char) : List Char :=
  if c = '"' then ['\\', '"']
  else if c = '\\' then ['\\', '\\']
  else if c = '\x08' then ['\\', 'b']
  else if c = '\x0c' then ['\\', 'f']
  else if c = '\n' then ['\\', 'n']
  else if c = '\r' then ['\\', 'r']
  else if c = '\t' then ['\\', 't']
  else if c.toNat < 32 then ['\\', 'u', '0', '0', hexDigit (c.toNat / 16), hexDigit (c.toNat % 16)]
  else [c]

/-- The body of the string that stands for `s`. -/
def escape (s : List Char) : List Char :=
  s.flatMap escapeChar

/-- A text as a JSON string, with its quotation marks. -/
def quote (s : String) : String :=
  String.ofList ('"' :: escape s.toList ++ ['"'])

/-- The character that a letter stands for after a backslash, `u` apart. -/
def plainEscape? : Char → Option Char
  | '"' => some '"'
  | '\\' => some '\\'
  | '/' => some '/'
  | 'b' => some '\x08'
  | 'f' => some '\x0c'
  | 'n' => some '\n'
  | 'r' => some '\r'
  | 't' => some '\t'
  | _ => none

/-- The character of a code unit that is no surrogate. -/
def unitChar? (unit : Nat) : Option Char :=
  if unit.isValidChar then some (Char.ofNat unit) else none

/-- The character of two code units that form a surrogate pair. -/
def pairChar? (high low : Nat) : Option Char :=
  if 0xd800 ≤ high ∧ high < 0xdc00 ∧ 0xdc00 ≤ low ∧ low < 0xe000 then
    unitChar? (0x10000 + (high - 0xd800) * 0x400 + (low - 0xdc00))
  else none

/-- Reads on in the body of a string; `done` holds what is read, last character first. -/
def unescapeFrom (done : List Char) : List Char → Option (List Char)
  | [] => some done.reverse
  | '\\' :: 'u' :: a :: b :: c :: d :: rest =>
    match hexValue4? a b c d with
    | none => none
    | some high =>
      match unitChar? high, rest with
      | some x, rest => unescapeFrom (x :: done) rest
      | none, '\\' :: 'u' :: e :: f :: g :: h :: rest =>
        match (hexValue4? e f g h).bind (pairChar? high) with
        | some x => unescapeFrom (x :: done) rest
        | none => none
      | none, _ => none
  | '\\' :: c :: rest =>
    match plainEscape? c with
    | some x => unescapeFrom (x :: done) rest
    | none => none
  | '\\' :: [] => none
  | c :: rest => unescapeFrom (c :: done) rest
termination_by s => s.length

/-- The text whose written form is the body `s`. -/
def unescape (s : List Char) : Option (List Char) :=
  unescapeFrom [] s

/-! ## Reading inverts writing -/

theorem hexValue4?_control : ∀ n < 32, hexValue4? '0' '0' (hexDigit (n / 16)) (hexDigit (n % 16)) = some n := by
  decide

theorem unitChar?_toNat (c : Char) : unitChar? c.toNat = some c := by
  have h : c.toNat.isValidChar := c.valid
  rw [unitChar?, if_pos h, Char.ofNat_toNat]

/-- An escaped character is read back, whatever comes before and after it. -/
theorem unescapeFrom_escapeChar (done rest : List Char) (c : Char) :
    unescapeFrom done (escapeChar c ++ rest) = unescapeFrom (c :: done) rest := by
  unfold escapeChar
  split
  · next h => subst h; simp [unescapeFrom, plainEscape?]
  split
  · next h => subst h; simp [unescapeFrom, plainEscape?]
  split
  · next h => subst h; simp [unescapeFrom, plainEscape?]
  split
  · next h => subst h; simp [unescapeFrom, plainEscape?]
  split
  · next h => subst h; simp [unescapeFrom, plainEscape?]
  split
  · next h => subst h; simp [unescapeFrom, plainEscape?]
  split
  · next h => subst h; simp [unescapeFrom, plainEscape?]
  split
  · next h => simp [unescapeFrom, hexValue4?_control _ h, unitChar?_toNat]
  · simp [unescapeFrom, *]

theorem unescapeFrom_escape (done s : List Char) : unescapeFrom done (escape s) = some (done.reverse ++ s) := by
  induction s generalizing done with
  | nil => simp [escape, unescapeFrom]
  | cons c s ih =>
    rw [show escape (c :: s) = escapeChar c ++ escape s from rfl, unescapeFrom_escapeChar, ih]
    simp

/-- Reading inverts writing. -/
theorem unescape_escape (s : List Char) : unescape (escape s) = some s := by
  simp [unescape, unescapeFrom_escape]

end Lexeme.Json
