/-!
# Characters as ranges of bytes

In UTF-8 the characters from one code point to another are sequences of bytes, and `byteSequences` describes them by
sequences of ranges: a sequence of ranges stands for all sequences that take one byte out of each range. The characters
of a range have that form if they all have the same number of bytes and if, after the first byte in which the ends of
the range differ, every byte runs through all values. Any other range is cut into such ranges.
-/

namespace Lexeme.Text

/-- A range of bytes, by its first and its last one. -/
abbrev ByteRange := UInt8 × UInt8

/-- Cuts the range from `low` to `high` at multiples of `size`, where the ends do not lie in one block of that size:
what lies before the first whole block and after the last one is cut off, and the whole blocks are cut at multiples of
64 times the size, and so on for the given number of sizes. -/
def cutBlocks (sizes size low high : Nat) : List (Nat × Nat) :=
  match sizes with
  | 0 => [(low, high)]
  | sizes + 1 =>
    if low / size = high / size then [(low, high)]
    else
      let first := (low + size - 1) / size * size
      let last := (high + 1) / size * size
      (if low < first then [(low, first - 1)] else []) ++
        (if first < last then cutBlocks sizes (size * 64) first (last - 1) else []) ++
        (if last ≤ high then [(last, high)] else [])

/-- The code points of characters by the number of bytes that follow the first one. There are no surrogates. -/
def codePointsByFollowers : List (Nat × Nat × Nat) :=
  [(0, 0, 0x7f), (1, 0x80, 0x7ff), (2, 0x800, 0xd7ff), (2, 0xe000, 0xffff), (3, 0x10000, 0x10ffff)]

/-- The ranges of bytes between the encodings of two code points. -/
def bytesBetween (low high : Nat) : List ByteRange :=
  (String.utf8EncodeChar (Char.ofNat low)).zip (String.utf8EncodeChar (Char.ofNat high))

/-- The sequences of ranges of bytes for the characters from code point `low` to `high`, in ascending order. -/
def byteSequences (low high : Nat) : List (List ByteRange) :=
  codePointsByFollowers.flatMap fun (followers, first, last) =>
    let low := max low first
    let high := min high last
    if low ≤ high then (cutBlocks followers 64 low high).map fun (a, b) => bytesBetween a b else []

end Lexeme.Text
