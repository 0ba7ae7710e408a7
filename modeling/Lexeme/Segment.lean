import Lexeme.Token

/-!
# Cutting a text into segments

A lexer cuts a text into consecutive segments, each of some kind, until the text ends or the next segment cannot be
found. Where a segment begins follows from the segments before it, so lexers say nothing about positions:
`Segment.tokens` finds them, and `Cut.position` is the place of a failure.
-/

namespace Lexeme

/-- A piece of text of kind `κ`. -/
structure Segment (κ : Type) where
  kind : κ
  text : List Char
deriving DecidableEq, Repr

/-- The segments found up to the end of the text, or up to a failure of kind `ε`. -/
structure Cut (κ ε : Type) where
  segments : List (Segment κ)
  failure : Option ε
deriving Repr

namespace Segment

/-- The text of consecutive segments. -/
def joined {κ : Type} (segments : List (Segment κ)) : List Char :=
  segments.flatMap Segment.text

/-- The tokens of segments of which the first begins at `p`. `place` gives the category and the channel of a kind, or
nothing if its segments are dropped; `done` holds the tokens before, last first. -/
def tokensFrom {κ : Type} (place : κ → Option (Nat × Nat)) (p : Position) (done : List Token) :
    List (Segment κ) → List Token
  | [] => done.reverse
  | s :: rest =>
    let next := p.advanceBy s.text
    match place s.kind with
    | some (category, channel) =>
      tokensFrom place next (⟨String.ofList s.text, category, channel, p⟩ :: done) rest
    | none => tokensFrom place next done rest

/-- The tokens of the segments of a whole text. -/
def tokens {κ : Type} (place : κ → Option (Nat × Nat)) (segments : List (Segment κ)) : List Token :=
  tokensFrom place .start [] segments

end Segment

namespace Cut

variable {κ ε : Type}

/-- Where the last segment ends. -/
def position (cut : Cut κ ε) : Position :=
  cut.segments.foldl (fun p s => p.advanceBy s.text) .start

/-- The tokens of a text that was cut up to its end, or the error at the place of the failure. -/
def tokens (cut : Cut κ ε) (place : κ → Option (Nat × Nat)) (error : Position → ε → LexingError) :
    Except LexingError (List Token) :=
  match cut.failure with
  | none => .ok (Segment.tokens place cut.segments)
  | some e => .error (error cut.position e)

end Cut

end Lexeme
