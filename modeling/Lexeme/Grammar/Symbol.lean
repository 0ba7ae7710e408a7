import Lexeme.Grammar.Basic
import Lexeme.Grammar.Error
import Lexeme.Text.Alphabetic
import Lexeme.Text.Blank
import Lexeme.Text.Numeric
import Lexeme.Text.Uppercase

/-!
# The symbols of a grammar source

A source is read as a list of symbols, each at the position where it begins; white space and comments between symbols
are dropped. Literals and sets are read with their escapes resolved, and an action is one symbol with all that its
braces hold.

The text comes with the position of each of its characters. Every function that reads a part of it gives back the
rest; if it fails, the rest begins where the fault is.
-/

namespace Lexeme.Grammar

/-- A symbol. An identifier that begins with an uppercase letter names a token, any other a rule of the parser. -/
inductive Symbol where
  | tokenName (name : String)
  | ruleName (name : String)
  | literal (text : String)
  | set (items : List SetItem)
  | action (body : String)
  | integer (value : Nat)
  | colon
  | doubleColon
  | semicolon
  | bar
  | leftParen
  | rightParen
  | question
  | star
  | plus
  | plusAssign
  | assign
  | tilde
  | dot
  | doubleDot
  | arrow
  | comma
  | at
  | hash
  | less
  | greater
deriving DecidableEq, Repr

/-- A text in which each character has its position. -/
abbrev Located := List (Char × Position)

/-- A fault, and the text that begins where it is. -/
structure Stop where
  fault : Fault
  rest : Located
deriving Repr

/-- What is read at the beginning of a text, and the rest. -/
abbrev Read (α : Type) := Except Stop (α × Located)

def stop {α : Type} (fault : Fault) (rest : Located) : Except Stop α := .error ⟨fault, rest⟩

/-! ## White space and comments -/

/-- Skips to the end of a comment in braces of slashes and stars. -/
def skipComment? : Located → Option Located
  | ('*', _) :: ('/', _) :: rest => some rest
  | _ :: rest => skipComment? rest
  | [] => none

theorem skipComment?_length {s rest : Located} (h : skipComment? s = some rest) : rest.length < s.length := by
  fun_induction skipComment? s with
  | case1 =>
    cases h
    simp only [List.length_cons]
    omega
  | case2 c t _ ih =>
    have := ih h
    simp only [List.length_cons]
    omega
  | case3 => cases h

/-- Skips what may stand between symbols. -/
def skipTrivia (s : Located) : Except Stop Located :=
  match s with
  | [] => .ok []
  | ('/', _) :: ('/', _) :: rest => skipTrivia (rest.dropWhile fun c => c.1 ≠ '\n')
  | ('/', _) :: ('*', _) :: rest =>
    match _ : skipComment? rest with
    | some rest => skipTrivia rest
    | none => stop .unterminatedComment []
  | (c, p) :: rest => if Text.isBlank c then skipTrivia rest else .ok ((c, p) :: rest)
termination_by s.length
decreasing_by
  · have := (List.dropWhile_suffix (fun c : Char × Position => decide (c.1 ≠ '\n')) (l := rest)).length_le
    simp only [List.length_cons]
    omega
  · rename_i h
    have := skipComment?_length h
    simp only [List.length_cons]
    omega
  · simp

theorem skipTrivia_length_le {s rest : Located} (h : skipTrivia s = .ok rest) : rest.length ≤ s.length := by
  fun_induction skipTrivia s with
  | case1 => cases h; simp
  | case2 p q t ih =>
    have := (List.dropWhile_suffix (fun c : Char × Position => decide (c.1 ≠ '\n')) (l := t)).length_le
    have := ih h
    simp only [List.length_cons]
    omega
  | case3 p q t u hu ih =>
    have := skipComment?_length hu
    have := ih h
    simp only [List.length_cons]
    omega
  | case4 => cases h
  | case5 c p t _ _ hblank ih =>
    have := ih h
    simp only [List.length_cons]
    omega
  | case6 => cases h; simp

/-! ## Identifiers and integers -/

def isNameChar (c : Char) : Bool := Text.isAlphabetic c || Text.isNumeric c || c = '_'

/-- Takes the characters that `p` accepts. -/
def spanOf (p : Char → Bool) (s : Located) : List Char × Located :=
  ((s.takeWhile fun c => p c.1).map Prod.fst, s.dropWhile fun c => p c.1)

/-- The value of digits to a base. -/
def digitsValue (base : Nat) (value : Char → Nat) (digits : List Char) : Nat :=
  digits.foldl (fun n c => n * base + value c) 0

/-- The value of digits to base ten. -/
def decimalValue (digits : List Char) : Nat :=
  digitsValue 10 (fun c => c.toNat - '0'.toNat) digits

/-- The greatest integer that a source may hold. -/
def maxInteger : Nat := UInt32.size - 1

/-- The symbol of a word that begins with `c`. -/
def wordSymbol (c : Char) (word : List Char) : Symbol :=
  if Text.isUppercase c then .tokenName (String.ofList word) else .ruleName (String.ofList word)

/-! ## Escapes -/

def isHexDigit (c : Char) : Bool :=
  ('0' ≤ c && c ≤ '9') || ('a' ≤ c && c ≤ 'f') || ('A' ≤ c && c ≤ 'F')

def hexDigitValue (c : Char) : Nat :=
  if '0' ≤ c && c ≤ '9' then c.toNat - '0'.toNat
  else if 'a' ≤ c && c ≤ 'f' then c.toNat - 'a'.toNat + 10
  else c.toNat - 'A'.toNat + 10

/-- The character whose code point has the given digits. -/
def codePoint (digits : List Char) (rest : Located) : Read Char :=
  if digits ≠ [] ∧ (digitsValue 16 hexDigitValue digits).isValidChar then
    .ok (Char.ofNat (digitsValue 16 hexDigitValue digits), rest)
  else stop (.invalidCodePoint (String.ofList digits)) rest

/-- Reads on to the closing brace of an escape. -/
def bracedDigits (done : List Char) : Located → Read (List Char)
  | [] => stop .malformedBracedEscape []
  | (c, _) :: rest =>
    if c = '\x7d' then .ok (done.reverse, rest)
    else if isHexDigit c then bracedDigits (c :: done) rest
    else stop .malformedBracedEscape rest

/-- Reads `count` more digits of an escape. -/
def fixedDigits (done : List Char) : Nat → Located → Read (List Char)
  | 0, rest => .ok (done.reverse, rest)
  | _ + 1, [] => stop .shortEscape []
  | count + 1, (c, _) :: rest =>
    if isHexDigit c then fixedDigits (c :: done) count rest else stop .shortEscape rest

/-- Reads the digits of an escape after its letter. -/
def escapeDigits : Located → Read (List Char)
  | ('\x7b', _) :: rest => bracedDigits [] rest
  | s => fixedDigits [] 4 s

/-- The character that a letter stands for after a backslash. Brackets and the hyphen may be escaped in a set. -/
def letterEscape? (inSet : Bool) (c : Char) : Option Char :=
  if c = 'n' then some '\n'
  else if c = 'r' then some '\r'
  else if c = 't' then some '\t'
  else if c = 'b' then some '\x08'
  else if c = 'f' then some '\x0c'
  else if c = '\\' ∨ c = '\'' ∨ c = '"' then some c
  else if inSet ∧ (c = ']' ∨ c = '[' ∨ c = '-') then some c
  else none

/-- Reads the rest of an escape, after its backslash. -/
def escape (inSet : Bool) : Located → Read Char
  | [] => stop .unterminatedEscape []
  | (c, _) :: rest =>
    match letterEscape? inSet c with
    | some d => .ok (d, rest)
    | none =>
      if c = 'u' then
        match escapeDigits rest with
        | .ok (digits, rest) => codePoint digits rest
        | .error e => .error e
      else if c = 'p' ∨ c = 'P' then stop (.unsupported "unicode property escape") rest
      else stop (.invalidEscape c) rest

theorem bracedDigits_length {done digits : List Char} {s rest : Located}
    (h : bracedDigits done s = .ok (digits, rest)) : rest.length < s.length := by
  fun_induction bracedDigits done s with
  | case1 => cases h
  | case2 => cases h; simp
  | case3 done c p t _ _ ih =>
    have := ih h
    simp only [List.length_cons]
    omega
  | case4 => cases h

theorem fixedDigits_length {done digits : List Char} {count : Nat} {s rest : Located}
    (h : fixedDigits done count s = .ok (digits, rest)) : rest.length ≤ s.length := by
  fun_induction fixedDigits done count s with
  | case1 => cases h; simp
  | case2 => cases h
  | case3 done count c p t _ ih =>
    have := ih h
    simp only [List.length_cons]
    omega
  | case4 => cases h

theorem escapeDigits_length {digits : List Char} {s rest : Located} (h : escapeDigits s = .ok (digits, rest)) :
    rest.length ≤ s.length := by
  unfold escapeDigits at h
  split at h
  · have := bracedDigits_length h
    simp only [List.length_cons]
    omega
  · exact fixedDigits_length h

theorem codePoint_rest {digits : List Char} {s rest : Located} {c : Char} (h : codePoint digits s = .ok (c, rest)) :
    rest = s := by
  unfold codePoint at h
  split at h
  · cases h; rfl
  · cases h

theorem escape_length {inSet : Bool} {s rest : Located} {c : Char} (h : escape inSet s = .ok (c, rest)) :
    rest.length < s.length := by
  unfold escape at h
  split at h
  · cases h
  · split at h
    · cases h; simp
    · split at h
      · split at h
        · next hdigits =>
          obtain rfl := codePoint_rest h
          have := escapeDigits_length hdigits
          simp only [List.length_cons]
          omega
        · cases h
      · split at h <;> cases h

/-! ## Literals, sets and actions -/

/-- Reads on to the closing apostrophe of a literal; `done` holds its text so far, backwards. -/
def literal (done : List Char) (s : Located) : Read String :=
  match s with
  | [] => stop .unterminatedLiteral []
  | (c, _) :: rest =>
    if c = '\'' then .ok (String.ofList done.reverse, rest)
    else if c = '\n' then stop .unterminatedLiteral rest
    else if c = '\\' then
      match _ : escape false rest with
      | .ok (d, rest) => literal (d :: done) rest
      | .error e => .error e
    else literal (c :: done) rest
termination_by s.length
decreasing_by
  · rename_i h
    have := escape_length h
    simp only [List.length_cons]
    omega
  · simp

theorem literal_length {done : List Char} {s rest : Located} {text : String}
    (h : literal done s = .ok (text, rest)) : rest.length < s.length := by
  fun_induction literal done s with
  | case1 => cases h
  | case2 => cases h; simp
  | case3 => cases h
  | case4 done p t d u hu _ _ ih =>
    have := escape_length hu
    have := ih h
    simp only [List.length_cons]
    omega
  | case5 => cases h
  | case6 done c p t _ _ _ ih =>
    have := ih h
    simp only [List.length_cons]
    omega

/-- Reads on to the closing bracket of a set: its characters, each with whether it was escaped. -/
def setChars (done : List (Char × Bool)) (s : Located) : Read (List (Char × Bool)) :=
  match s with
  | [] => stop .unterminatedSet []
  | (c, _) :: rest =>
    if c = ']' then .ok (done.reverse, rest)
    else if c = '\\' then
      match _ : escape true rest with
      | .ok (d, rest) => setChars ((d, true) :: done) rest
      | .error e => .error e
    else setChars ((c, false) :: done) rest
termination_by s.length
decreasing_by
  · rename_i h
    have := escape_length h
    simp only [List.length_cons]
    omega
  · simp

theorem setChars_length {done chars : List (Char × Bool)} {s rest : Located}
    (h : setChars done s = .ok (chars, rest)) : rest.length < s.length := by
  fun_induction setChars done s with
  | case1 => cases h
  | case2 => cases h; simp
  | case3 done p t d u hu _ ih =>
    have := escape_length hu
    have := ih h
    simp only [List.length_cons]
    omega
  | case4 => cases h
  | case5 done c p t _ _ ih =>
    have := ih h
    simp only [List.length_cons]
    omega

/-- Combines the characters of a set into items. A hyphen between two characters makes a range unless it is
escaped. -/
def setItems (done : List SetItem) : List (Char × Bool) → Except Fault (List SetItem)
  | (low, _) :: ('-', false) :: (high, _) :: rest =>
    if high < low then .error (.reversedRange low high) else setItems (.range low high :: done) rest
  | (c, _) :: rest => setItems (.single c :: done) rest
  | [] => if done.isEmpty then .error .emptySet else .ok done.reverse

/-- Reads a set after its opening bracket. -/
def set (s : Located) : Read (List SetItem) :=
  match setChars [] s with
  | .ok (chars, rest) =>
    match setItems [] chars with
    | .ok items => .ok (items, rest)
    | .error fault => stop fault rest
  | .error e => .error e

/-- Reads on to the closing brace of an action; `done` holds its text so far, backwards. Inside there are `depth` open
braces, or a quotation that ends with `mark?`. -/
def action (depth : Nat) (mark? : Option Char) (done : List Char) : Located → Read String
  | [] => stop .unterminatedAction []
  | (c, _) :: rest =>
    match mark? with
    | some mark =>
      if c = '\\' then
        match rest with
        | (d, _) :: rest => action depth (some mark) (d :: c :: done) rest
        | [] => stop .unterminatedAction []
      else action depth (if c = mark then none else some mark) (c :: done) rest
    | none =>
      if c = '\x7b' then action (depth + 1) none (c :: done) rest
      else if c = '\x7d' then
        match depth with
        | 0 => .ok (String.ofList done.reverse, rest)
        | depth + 1 => action depth none (c :: done) rest
      else action depth (if c = '\'' ∨ c = '"' then some c else none) (c :: done) rest

theorem action_length {depth : Nat} {mark? : Option Char} {done : List Char} {s rest : Located} {body : String}
    (h : action depth mark? done s = .ok (body, rest)) : rest.length < s.length := by
  fun_induction action depth mark? done s with
  | case1 => cases h
  | case3 => cases h
  | case6 => cases h; simp
  | _ =>
    rename_i ih
    have := ih h
    simp only [List.length_cons]
    omega

/-! ## Symbols -/

/-- The symbol of one or two characters at the beginning of a text, and whether it takes both. -/
def mark? (c : Char) (after : Option Char) : Option (Symbol × Bool) :=
  match c, after with
  | ':', some ':' => some (.doubleColon, true)
  | ':', _ => some (.colon, false)
  | '.', some '.' => some (.doubleDot, true)
  | '.', _ => some (.dot, false)
  | '-', some '>' => some (.arrow, true)
  | '+', some '=' => some (.plusAssign, true)
  | '+', _ => some (.plus, false)
  | ';', _ => some (.semicolon, false)
  | '|', _ => some (.bar, false)
  | '(', _ => some (.leftParen, false)
  | ')', _ => some (.rightParen, false)
  | '?', _ => some (.question, false)
  | '*', _ => some (.star, false)
  | '=', _ => some (.assign, false)
  | '~', _ => some (.tilde, false)
  | ',', _ => some (.comma, false)
  | '@', _ => some (.at, false)
  | '#', _ => some (.hash, false)
  | '<', _ => some (.less, false)
  | '>', _ => some (.greater, false)
  | _, _ => none

/-- Reads the symbol that begins with `c`, at position `p`. -/
def symbol (c : Char) (p : Position) (rest : Located) : Read Symbol :=
  if c = '\'' then (literal [] rest).map fun r => (.literal r.1, r.2)
  else if c = '[' then (set rest).map fun r => (.set r.1, r.2)
  else if c = '\x7b' then (action 0 none [] rest).map fun r => (.action r.1, r.2)
  else if c.isDigit then
    if decimalValue (c :: (spanOf Char.isDigit rest).1) ≤ maxInteger then
      .ok (.integer (decimalValue (c :: (spanOf Char.isDigit rest).1)), (spanOf Char.isDigit rest).2)
    else stop .integerOutOfRange (spanOf Char.isDigit rest).2
  else if Text.isAlphabetic c || c = '_' then
    .ok (wordSymbol c (c :: (spanOf isNameChar rest).1), (spanOf isNameChar rest).2)
  else
    match mark? c (rest.head?.map Prod.fst) with
    | some (mark, both) => .ok (mark, if both then rest.drop 1 else rest)
    | none => stop (.unexpectedCharacter c) ((c, p) :: rest)

theorem spanOf_length (p : Char → Bool) (s : Located) : (spanOf p s).2.length ≤ s.length :=
  (List.dropWhile_suffix _).length_le

theorem set_length {s rest : Located} {items : List SetItem} (h : set s = .ok (items, rest)) :
    rest.length < s.length := by
  unfold set at h
  split at h
  · next hchars =>
    have := setChars_length hchars
    split at h
    · cases h; assumption
    · cases h
  · cases h

theorem symbol_length {c : Char} {p : Position} {s rest : Located} {found : Symbol}
    (h : symbol c p s = .ok (found, rest)) : rest.length ≤ s.length := by
  have hmap {α : Type} {r : Read α} {f : α → Symbol} (h : r.map (fun r => (f r.1, r.2)) = .ok (found, rest))
      (hr : ∀ a t, r = .ok (a, t) → t.length < s.length) : rest.length ≤ s.length := by
    cases r with
    | error => cases h
    | ok r =>
      have := hr r.1 r.2 rfl
      cases h
      omega
  unfold symbol at h
  split at h
  · exact hmap h fun a t => literal_length
  · split at h
    · exact hmap h fun a t => set_length
    · split at h
      · exact hmap h fun a t => action_length
      · split at h
        · have := spanOf_length Char.isDigit s
          split at h
          · cases h; assumption
          · cases h
        · split at h
          · cases h; exact spanOf_length _ _
          · split at h
            · next both _ =>
              cases h
              split <;> simp
            · cases h

/-- Reads all symbols; `done` holds those before, last first. -/
def symbolsFrom (done : List (Symbol × Position)) (s : Located) : Except Stop (List (Symbol × Position)) :=
  match _ : skipTrivia s with
  | .error e => .error e
  | .ok [] => .ok done.reverse
  | .ok ((c, p) :: rest) =>
    match _ : symbol c p rest with
    | .ok (found, rest) => symbolsFrom ((found, p) :: done) rest
    | .error e => .error e
termination_by s.length
decreasing_by
  have := skipTrivia_length_le ‹skipTrivia _ = _›
  have := symbol_length ‹symbol _ _ _ = _›
  simp only [List.length_cons] at *
  omega

/-- The symbols of a source. -/
def symbols (source : String) : Except Error (List (Symbol × Position)) :=
  let s := source.toList
  match symbolsFrom [] (Position.locate s) with
  | .ok found => .ok found
  | .error ⟨fault, (_, p) :: _⟩ => .error (fault.error p)
  | .error ⟨fault, []⟩ => .error (fault.error (Position.start.advanceBy s))

end Lexeme.Grammar
