/-!
# Measures of a text

Lines, and the longest beginning of a text that fits a number of bytes. A line ends after a line feed; a last line
without one counts if it holds a character. Where the longest beginning ends is found from its limit backwards.
-/

namespace Lexeme.Text

/-- The number of finished lines, and whether an unfinished one has begun, after one more character. -/
def countLine (state : Nat × Bool) (c : Char) : Nat × Bool :=
  if c = '\n' then (state.1 + 1, false) else (state.1, true)

/-- The number of lines of a text. -/
def lineCount (s : String) : Nat :=
  let (finished, unfinished) := s.foldl countLine (0, false)
  finished + unfinished.toNat

/-- The longest beginning of whole characters that takes at most `limit` bytes of UTF-8. -/
def clip (limit : Nat) : List Char → List Char
  | [] => []
  | c :: rest => if c.utf8Size ≤ limit then c :: clip (limit - c.utf8Size) rest else []

theorem clip_isPrefix (limit : Nat) (s : List Char) : clip limit s <+: s := by
  induction s generalizing limit with
  | nil => simp [clip]
  | cons c rest ih =>
    by_cases h : c.utf8Size ≤ limit
    · simpa [clip, h] using ih (limit - c.utf8Size)
    · simp [clip, h]

/-- The last boundary between characters that is at most `n` bytes into a text, searched for backwards from there. -/
def boundaryFrom (s : String) : Nat → Nat
  | 0 => 0
  | n + 1 => if String.Pos.Raw.isValid s ⟨n + 1⟩ then n + 1 else boundaryFrom s n

end Lexeme.Text
