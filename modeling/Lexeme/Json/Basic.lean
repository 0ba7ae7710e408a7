import Lexeme.Json.Quoted

/-!
# JSON documents

`Json.parse?` reads a document into a tree. It checks the form of the text only: the body of a string keeps its
escapes, a number keeps its digits, nesting has no limit, and an object keeps all its fields in order. What a value
has to satisfy beyond its form is said in `Lexeme.Json.Value`.

The reader goes through the text once, with a stack of the arrays and objects that are still open.
-/

namespace Lexeme

/-- A number as written: its sign, its digits before and after the point, and its exponent of ten. -/
structure Json.Number where
  negative : Bool
  whole : List Char
  fraction : List Char
  exponent : Int
deriving DecidableEq, Repr

/-- A document. String bodies and keys stand as they are written between the quotation marks. -/
inductive Json where
  | null
  | bool (value : Bool)
  | number (value : Json.Number)
  | string (body : List Char)
  | array (items : List Json)
  | object (fields : List (List Char × Json))
deriving Inhabited

namespace Json

/-- The white space of the format. -/
def isSpace (c : Char) : Bool :=
  c = ' ' || c = '\n' || c = '\r' || c = '\t'

def skipSpace (s : List Char) : List Char :=
  s.dropWhile isSpace

theorem skipSpace_length_le (s : List Char) : (skipSpace s).length ≤ s.length :=
  (List.dropWhile_suffix isSpace).length_le

/-- Splits a run of decimal digits off. -/
def spanDigits (s : List Char) : List Char × List Char :=
  (s.takeWhile Char.isDigit, s.dropWhile Char.isDigit)

/-! ## Scalars -/

/-- The number that a decimal digit appended to `n` makes. -/
def appendDigit (n : Nat) (c : Char) : Nat := n * 10 + (c.toNat - '0'.toNat)

/-- The value of decimal digits. -/
def decimalValue (digits : List Char) : Nat := digits.foldl appendDigit 0

theorem spanDigits_length_le {s digits rest : List Char} (h : spanDigits s = (digits, rest)) :
    rest.length + digits.length = s.length := by
  obtain ⟨rfl, rfl⟩ := Prod.mk.inj h
  rw [Nat.add_comm, ← List.length_append, List.takeWhile_append_dropWhile]

/-- Digits before the point: at least one, and no leading zero. -/
def integerPart? (s : List Char) : Option (List Char × List Char) :=
  let (digits, rest) := spanDigits s
  if digits = [] ∨ (digits.head? = some '0' ∧ digits ≠ ['0']) then none else some (digits, rest)

/-- The digits after a point, if there is one. -/
def fractionPart? : List Char → Option (List Char × List Char)
  | '.' :: s =>
    let (digits, rest) := spanDigits s
    if digits = [] then none else some (digits, rest)
  | s => some ([], s)

/-- The digits of an exponent with its sign, after the letter. -/
def exponentDigits? (s : List Char) : Option (Int × List Char) :=
  let (negative, s) :=
    match s with
    | '-' :: s => (true, s)
    | '+' :: s => (false, s)
    | s => (false, s)
  let (digits, rest) := spanDigits s
  if digits = [] then none
  else some (if negative then -decimalValue digits else decimalValue digits, rest)

/-- The exponent, if there is one. -/
def exponentPart? : List Char → Option (Int × List Char)
  | 'e' :: s => exponentDigits? s
  | 'E' :: s => exponentDigits? s
  | s => some (0, s)

/-- Reads a number. -/
def number? (s : List Char) : Option (Number × List Char) := do
  let (negative, s) :=
    match s with
    | '-' :: s => (true, s)
    | s => (false, s)
  let (whole, s) ← integerPart? s
  let (fraction, s) ← fractionPart? s
  let (exponent, s) ← exponentPart? s
  return (⟨negative, whole, fraction, exponent⟩, s)

theorem integerPart?_length {s digits rest : List Char} (h : integerPart? s = some (digits, rest)) :
    rest.length < s.length := by
  unfold integerPart? at h
  grind [→ spanDigits_length_le, List.length_eq_zero_iff]

theorem fractionPart?_length {s digits rest : List Char} (h : fractionPart? s = some (digits, rest)) :
    rest.length ≤ s.length := by
  unfold fractionPart? at h
  grind [→ spanDigits_length_le]

theorem exponentDigits?_length {s rest : List Char} {e : Int} (h : exponentDigits? s = some (e, rest)) :
    rest.length ≤ s.length := by
  unfold exponentDigits? at h
  grind [→ spanDigits_length_le]

theorem exponentPart?_length {s rest : List Char} {e : Int} (h : exponentPart? s = some (e, rest)) :
    rest.length ≤ s.length := by
  unfold exponentPart? at h
  grind [→ exponentDigits?_length]

theorem number?_length {s rest : List Char} {n : Number} (h : number? s = some (n, rest)) :
    rest.length < s.length := by
  unfold number? at h
  simp only [bind, Option.bind_eq_some_iff, pure, Option.some.injEq, Prod.mk.injEq] at h
  obtain ⟨⟨whole, s₁⟩, h₁, ⟨fraction, s₂⟩, h₂, ⟨e, s₃⟩, h₃, -, rfl⟩ := h
  have := integerPart?_length h₁
  have := fractionPart?_length h₂
  have := exponentPart?_length h₃
  grind

/-- Reads on to the end of a string body and drops the closing mark; `done` holds the body so far, backwards. -/
def bodyFrom? (done : List Char) : List Char → Option (List Char × List Char)
  | [] => none
  | '"' :: rest => some (done.reverse, rest)
  | '\\' :: 'u' :: a :: b :: c :: d :: rest =>
    if (hexValue4? a b c d).isSome then bodyFrom? (d :: c :: b :: a :: 'u' :: '\\' :: done) rest else none
  | '\\' :: c :: rest => if (plainEscape? c).isSome then bodyFrom? (c :: '\\' :: done) rest else none
  | c :: rest => if c.toNat < 32 ∨ c = '\\' then none else bodyFrom? (c :: done) rest
termination_by s => s.length

theorem bodyFrom?_length {done s body rest : List Char} (h : bodyFrom? done s = some (body, rest)) :
    rest.length < s.length := by
  fun_induction bodyFrom? done s <;> simp_all <;> omega

/-- Reads the key of a field and the colon after it. -/
def key? (s : List Char) : Option (List Char × List Char) :=
  match skipSpace s with
  | '"' :: s =>
    match bodyFrom? [] s with
    | some (body, s) =>
      match skipSpace s with
      | ':' :: s => some (body, s)
      | _ => none
    | none => none
  | _ => none

theorem key?_length {s body rest : List Char} (h : key? s = some (body, rest)) : rest.length < s.length := by
  have hs := skipSpace_length_le s
  unfold key? at h
  split at h
  · next t ht =>
    split at h
    · next b u hb =>
      have hu := skipSpace_length_le u
      split at h
      · next v hv =>
        have := bodyFrom?_length hb
        simp_all
        omega
      · simp at h
    · simp at h
  · simp at h

/-- Reads a value that is neither an array nor an object. -/
def scalar? : List Char → Option (Json × List Char)
  | 'n' :: 'u' :: 'l' :: 'l' :: rest => some (null, rest)
  | 't' :: 'r' :: 'u' :: 'e' :: rest => some (bool true, rest)
  | 'f' :: 'a' :: 'l' :: 's' :: 'e' :: rest => some (bool false, rest)
  | '"' :: rest => (bodyFrom? [] rest).map fun (body, rest) => (string body, rest)
  | s => (number? s).map fun (n, rest) => (number n, rest)

theorem scalar?_length {s rest : List Char} {value : Json} (h : scalar? s = some (value, rest)) :
    rest.length < s.length := by
  unfold scalar? at h
  split at h
  · grind
  · grind
  · grind
  · obtain ⟨⟨body, r⟩, hb, he⟩ := Option.map_eq_some_iff.1 h
    have := bodyFrom?_length hb
    grind
  · obtain ⟨⟨n, r⟩, hn, he⟩ := Option.map_eq_some_iff.1 h
    have := number?_length hn
    grind

/-! ## The reader -/

/-- An array or object that is still open, with what it holds so far, last first. -/
inductive Frame where
  | array (items : List Json)
  | object (fields : List (List Char × Json)) (key : List Char)

mutual

/-- Reads on where a value is due. -/
def read (opened : List Frame) (s : List Char) : Option Json :=
  match _ : skipSpace s with
  | '[' :: s =>
    match _ : skipSpace s with
    | ']' :: s => resume opened (.array []) s
    | _ => read (.array [] :: opened) s
  | '\x7b' :: s =>
    match _ : skipSpace s with
    | '\x7d' :: s => resume opened (.object []) s
    | _ =>
      match _ : key? s with
      | some (key, s) => read (.object [] key :: opened) s
      | none => none
  | s =>
    match _ : scalar? s with
    | some (value, rest) => resume opened value rest
    | none => none
termination_by s.length
decreasing_by
  all_goals
    have h := skipSpace_length_le
    grind [→ key?_length, → scalar?_length]

/-- Reads on where a value has just ended. -/
def resume (opened : List Frame) (value : Json) (s : List Char) : Option Json :=
  match opened with
  | [] => if skipSpace s = [] then some value else none
  | .array items :: opened =>
    match _ : skipSpace s with
    | ',' :: s => read (.array (value :: items) :: opened) s
    | ']' :: s => resume opened (.array (value :: items).reverse) s
    | _ => none
  | .object fields key :: opened =>
    match _ : skipSpace s with
    | ',' :: s =>
      match _ : key? s with
      | some (next, s) => read (.object ((key, value) :: fields) next :: opened) s
      | none => none
    | '\x7d' :: s => resume opened (.object ((key, value) :: fields).reverse) s
    | _ => none
termination_by s.length
decreasing_by
  all_goals
    have h := skipSpace_length_le
    grind [→ key?_length, → scalar?_length]

end

/-- The tree of a document, if the whole text is one. -/
def parse? (s : String) : Option Json :=
  read [] s.toList

end Json

end Lexeme
