import Lexeme.Text.Bytes

/-!
# Positions in a text

A position is the place between two characters: the number of UTF-8 bytes before it, its line, and its column. Lines
and columns count from one, a column counts characters, and only a line feed begins a line.

Lines and columns are counted without bound. Words of 32 bits count the same up to 2^32 - 2 characters, which is more than
any file that is read can hold.
-/

namespace Lexeme

structure Position where
  offset : Nat
  line : Nat
  column : Nat
deriving DecidableEq, Repr, Inhabited

namespace Position

/-- The beginning of a text. -/
def start : Position := ⟨0, 1, 1⟩

/-- The position after one more character. -/
def advance (p : Position) (c : Char) : Position :=
  if c = '\n' then ⟨p.offset + 1, p.line + 1, 1⟩ else ⟨p.offset + c.utf8Size, p.line, p.column + 1⟩

/-- The position after a piece of text. -/
def advanceBy (p : Position) (s : List Char) : Position :=
  s.foldl advance p

@[simp] theorem advanceBy_nil (p : Position) : p.advanceBy [] = p := rfl

@[simp] theorem advanceBy_cons (p : Position) (c : Char) (s : List Char) :
    p.advanceBy (c :: s) = (p.advance c).advanceBy s := rfl

theorem advanceBy_append (p : Position) (s t : List Char) :
    p.advanceBy (s ++ t) = (p.advanceBy s).advanceBy t := by
  simp [advanceBy]

/-- A piece of text moves the offset on by its bytes. -/
theorem offset_advanceBy (p : Position) (s : List Char) : (p.advanceBy s).offset = p.offset + Text.byteCount s := by
  induction s generalizing p with
  | nil => rfl
  | cons c s ih =>
    have hadvance : (p.advance c).offset = p.offset + c.utf8Size := by
      unfold advance
      split
      · next hc => rw [hc]; rfl
      · rfl
    rw [advanceBy_cons, ih, hadvance, Text.byteCount_cons, Nat.add_assoc]

/-- Puts before each character of a text the position where it stands; the text begins at `p`, and `done` holds the
characters before, last first. -/
def locateFrom (p : Position) (done : List (Char × Position)) : List Char → List (Char × Position)
  | [] => done.reverse
  | c :: s => locateFrom (p.advance c) ((c, p) :: done) s

/-- The characters of a text with the positions where they stand. -/
def locate (s : List Char) : List (Char × Position) := locateFrom start [] s

/-- Line and column, as messages show a position. -/
protected def toString (p : Position) : String :=
  s!"{p.line}:{p.column}"

instance : ToString Position := ⟨Position.toString⟩

end Position

end Lexeme
