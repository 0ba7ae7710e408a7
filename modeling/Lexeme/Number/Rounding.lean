/-!
# Rounding

Quotients are rounded to the nearest integer, and a tie goes to the even neighbour. From this follow the nearest
double of a quotient and the text of a number with a fixed number of decimal places.
-/

namespace Lexeme.Number

/-- A quotient of natural numbers. -/
structure Ratio where
  num : Nat
  den : Nat
  den_pos : 0 < den
deriving DecidableEq, Repr

namespace Ratio

def ofNat (n : Nat) : Ratio := ⟨n, 1, Nat.one_pos⟩

def add (a b : Ratio) : Ratio := ⟨a.num * b.den + b.num * a.den, a.den * b.den, Nat.mul_pos a.den_pos b.den_pos⟩

def mul (a b : Ratio) : Ratio := ⟨a.num * b.num, a.den * b.den, Nat.mul_pos a.den_pos b.den_pos⟩

/-- The nearest integer; of two, the even one. -/
def round (a : Ratio) : Nat :=
  let below := a.num / a.den
  let twice := 2 * (a.num % a.den)
  if twice < a.den then below
  else if a.den < twice then below + 1
  else below + below % 2

theorem shiftLeft_pos {n : Nat} (h : 0 < n) (k : Nat) : 0 < n <<< k := by
  rw [Nat.shiftLeft_eq]
  exact Nat.mul_pos h (Nat.two_pow_pos k)

/-- The quotient by a power of two. -/
def scale (a : Ratio) (exponent : Int) : Ratio :=
  ⟨a.num <<< (-exponent).toNat, a.den <<< exponent.toNat, shiftLeft_pos a.den_pos _⟩

/-- The exponent for which `a` is a number of 53 binary digits times that power of two. -/
def binaryExponent (a : Ratio) : Int :=
  let guess : Int := (a.num.log2 : Int) - a.den.log2 - 52
  let scaled := a.scale guess
  if scaled.num < scaled.den <<< 52 then guess - 1 else guess

/-- The nearest double, for numbers that are neither too small nor too large to have 53 binary digits. -/
def nearestDouble (a : Ratio) : Ratio :=
  if a.num = 0 then a
  else
    let exponent := a.binaryExponent
    ⟨(a.scale exponent).round <<< exponent.toNat, 1 <<< (-exponent).toNat, shiftLeft_pos Nat.one_pos _⟩

/-- The text of a number with two decimal places. -/
def twoPlaces (a : Ratio) : String :=
  let hundredths := (a.mul (ofNat 100)).round
  let cents := hundredths % 100
  s!"{hundredths / 100}.{cents / 10}{cents % 10}"

end Ratio

end Lexeme.Number
