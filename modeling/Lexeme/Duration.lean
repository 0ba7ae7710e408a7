import Lexeme.Number.Rounding

/-!
# Durations

A duration is a number of seconds and of billionths of a second. For printing it is turned into a double; the parts
are rounded one by one.
-/

namespace Lexeme

structure Duration where
  seconds : Nat
  nanoseconds : Nat
deriving DecidableEq, Repr

namespace Duration

open Number (Ratio)

def zero : Duration := ⟨0, 0⟩

/-- The duration of seconds and any number of billionths: whole seconds among these are carried over. -/
def of (seconds nanoseconds : Nat) : Duration :=
  ⟨seconds + nanoseconds / 1000000000, nanoseconds % 1000000000⟩

/-- The number of seconds as a double. -/
def inSeconds (d : Duration) : Ratio :=
  ((Ratio.ofNat d.seconds).nearestDouble.add (Ratio.nearestDouble ⟨d.nanoseconds, 1000000000, by decide⟩)).nearestDouble

/-- The number of milliseconds as a double. -/
def inMilliseconds (d : Duration) : Ratio :=
  (d.inSeconds.mul (Ratio.ofNat 1000)).nearestDouble

end Duration

end Lexeme
