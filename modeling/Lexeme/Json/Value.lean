import Lexeme.Json.Basic
import Lexeme.Number.Rounding

/-!
# JSON values

A document of the right form stands for a value when all its strings can be read, all its numbers are finite as
doubles, and arrays and objects are nested less than `nestingLimit` deep. Of fields with one key the last one counts,
and the fields of a value are taken in ascending order of their keys.
-/

namespace Lexeme.Json

open Lexeme.Number (Ratio)

/-- Arrays and objects nested this deep are refused. -/
def nestingLimit : Nat := 128

/-! ## Numbers

A number is read as a significand of 64 bits and a power of ten, and each of them is rounded to a double. Their product
is the number, so it can be infinite although a double near the number as written exists.
-/

/-- Significands are less than this. -/
def significandBound : Nat := UInt64.size

/-- The digits that a significand has room for, appended to it, and how many they are. -/
def appendDigits (significand : Nat) : List Char → Nat × Nat
  | [] => (significand, 0)
  | c :: rest =>
    let longer := appendDigit significand c
    if longer < significandBound then
      let (longest, count) := appendDigits longer rest
      (longest, count + 1)
    else (significand, 0)

/-- The significand and the exponent of its power of ten. Each digit before the point that there is no room for makes
the power one greater; digits after the point that there is no room for do not count. -/
def Number.parts (n : Number) : Nat × Int :=
  let (significand, taken) := appendDigits 0 n.whole
  let (significand, places) := appendDigits significand n.fraction
  (significand, n.exponent + (n.whole.length - taken : Nat) - places)

/-- The exponent of the greatest power of ten that a double can be near to. -/
def maxDecimalExponent : Int := 308

/-- The least number that rounds to infinity as a double: half a unit beyond the greatest finite one. -/
def overflowBound : Nat := (1 <<< 1024) - (1 <<< 970)

/-- Whether the product of the doubles nearest to two numbers is finite as a double. -/
def isFiniteProduct (m n : Nat) : Bool :=
  let product := (Ratio.ofNat m).nearestDouble.mul (Ratio.ofNat n).nearestDouble
  product.num < overflowBound * product.den

/-- Whether the number is finite as a double. -/
def Number.isFinite (n : Number) : Bool :=
  let (significand, exponent) := n.parts
  significand = 0 || exponent < 0 ||
    (exponent ≤ maxDecimalExponent && isFiniteProduct significand (Nat.pow 10 exponent.toNat))

/-! ## Values -/

/-- The text of a string body or a key. -/
def text? (body : List Char) : Option String :=
  (unescape body).map String.ofList

mutual

/-- Whether the document stands for a value inside `room` more levels of nesting. -/
def isValue (room : Nat) : Json → Bool
  | null => true
  | bool _ => true
  | number n => n.isFinite
  | string body => (text? body).isSome
  | array items => 0 < room && areValues (room - 1) items
  | object fields => 0 < room && areFields (room - 1) fields

def areValues (room : Nat) : List Json → Bool
  | [] => true
  | item :: items => isValue room item && areValues room items

def areFields (room : Nat) : List (List Char × Json) → Bool
  | [] => true
  | (key, item) :: fields => (text? key).isSome && isValue room item && areFields room fields

end

/-- Reads a document that stands for a value. -/
def value? (s : String) : Option Json :=
  (parse? s).filter (isValue (nestingLimit - 1))

/-- Keeps of neighbours with one key the last. -/
def lastOfEach {α : Type} : List (String × α) → List (String × α)
  | a :: b :: rest => if a.1 = b.1 then lastOfEach (b :: rest) else a :: lastOfEach (b :: rest)
  | short => short

/-- The fields that count, in ascending order of their keys. A key that cannot be read is left out. -/
def entries (fields : List (List Char × Json)) : List (String × Json) :=
  lastOfEach ((fields.filterMap fun (key, item) => (text? key).map (·, item)).mergeSort fun a b => a.1 ≤ b.1)

/-- A compact object whose values are documents already, its fields in the order given. -/
def writeObject (fields : List (String × String)) : String :=
  "\x7b" ++ ",".intercalate (fields.map fun (key, item) => quote key ++ ":" ++ item) ++ "\x7d"

end Lexeme.Json
