import Lexeme.Pattern.Basic

/-!
# Left-factored patterns

When a matcher has to find the first match that the alternatives and repeats of a pattern allow, it decides between
alternatives as late as it can: what all alternatives of a choice begin with is matched once, before the choice.
`Pattern.factored` brings a pattern into that form. The texts that match stay the same, but which of them comes first
can depend on it: after `a??` has matched, `a??b|a??a` has the choice between `b` and `a`.

Factoring compares parts of sequences, so the form is canonical in other respects too. Parentheses are resolved,
neighbouring literals are joined, a choice among single characters or among sets is a set, and a set is a list of
ascending ranges that do not touch. A choice between a single character and a set is left as it is.
-/

namespace Lexeme.Pattern

/-! ## Sets as ranges of code points -/

abbrev Ranges := List (Nat × Nat)

def lastCodePoint : Nat := 0x10ffff

/-- Joins ranges, given in ascending order, that overlap or touch. -/
def joinRanges : Ranges → Ranges
  | a :: b :: rest =>
    if b.1 ≤ a.2 + 1 then joinRanges ((a.1, max a.2 b.2) :: rest) else a :: joinRanges (b :: rest)
  | short => short
termination_by ranges => ranges.length

def canonicalRanges (ranges : Ranges) : Ranges :=
  joinRanges (ranges.mergeSort fun a b => a.1 < b.1 || (a.1 = b.1 && a.2 ≤ b.2))

/-- Whether a code point is a surrogate, which no character has. -/
def isSurrogate (n : Nat) : Bool := 0xd800 ≤ n && n < 0xe000

/-- The range from the character after one range to the character before the next, given their code points if there were
no surrogates. The character after a surrogate is the first beyond them all, and the one before it is the last before
them all; where these two change places, they are put in order. -/
def rangeBetween (low high : Nat) : Nat × Nat :=
  let low := if isSurrogate low then afterSurrogates.toNat else low
  let high := if isSurrogate high then beforeSurrogates.toNat else high
  (min low high, max low high)

/-- The ranges between ascending ranges that do not touch, from code point `low` on. -/
def gaps (low : Nat) : Ranges → Ranges
  | [] => if low ≤ lastCodePoint then [rangeBetween low lastCodePoint] else []
  | (a, b) :: rest => (if low < a then [rangeBetween low (a - 1)] else []) ++ gaps (b + 1) rest

def itemRange : SetItem → Nat × Nat
  | .single c => (c.toNat, c.toNat)
  | .range low high => (low.toNat, high.toNat)

/-- The ranges of a set. -/
def setRanges (negated : Bool) (items : List SetItem) : Ranges :=
  let ranges := canonicalRanges (items.map itemRange)
  if negated then gaps 0 ranges else ranges

/-- The canonical pattern for one character out of `ranges`. -/
def ofRanges : Ranges → Pattern
  | [(a, b)] => if a = b then literal [Char.ofNat a] else set false [.range (Char.ofNat a) (Char.ofNat b)]
  | ranges => set false (ranges.map fun r => .range (Char.ofNat r.1) (Char.ofNat r.2))

/-- The range of a literal of one character. -/
def onlyRange? : Pattern → Option Ranges
  | literal [c] => some [(c.toNat, c.toNat)]
  | _ => none

/-- The ranges of a set. -/
def ranges? : Pattern → Option Ranges
  | set negated items => some (setRanges negated items)
  | _ => none

/-! ## Sequences -/

/-- The parts of a sequence. -/
def parts : Pattern → List Pattern
  | seq p q => p.parts ++ q.parts
  | literal [] => []
  | p => [p]

/-- The canonical sequence of a part and a canonical pattern: two literals that follow each other are joined. -/
def prepend (part rest : Pattern) : Pattern :=
  match part, rest with
  | part, literal [] => part
  | literal s, literal t => literal (s ++ t)
  | literal s, seq (literal t) rest => seq (literal (s ++ t)) rest
  | part, rest => seq part rest

/-- The canonical sequence of two canonical patterns. -/
def append : Pattern → Pattern → Pattern
  | literal [], q => q
  | seq part rest, q => prepend part (rest.append q)
  | part, q => prepend part q

/-- The canonical sequence of canonical patterns. -/
def sequence (ps : List Pattern) : Pattern := ps.foldr append (literal [])

/-! ## Choices -/

/-- The alternatives of a choice. -/
def branches : Pattern → List Pattern
  | alt p q => p.branches ++ q.branches
  | p => [p]

/-- The longest common beginning of two lists. -/
def commonBeginning : List Pattern → List Pattern → List Pattern
  | p :: ps, q :: qs => if p = q then p :: commonBeginning ps qs else []
  | _, _ => []

/-- The ranges of a choice among literals of one character each, or among sets. A choice among both kinds stays a
choice. -/
def unionRanges? (ps : List Pattern) : Option Ranges :=
  ((ps.mapM onlyRange?).or (ps.mapM ranges?)).map fun found => canonicalRanges found.flatten

/-- The canonical choice among canonical patterns that have no common beginning. -/
def plainChoice (ps : List Pattern) : Pattern :=
  (unionRanges? ps).elim (choice ps) ofRanges

/-- What all alternatives begin with, if they all are sequences of several parts. -/
def sharedBeginning (ps : List Pattern) : List Pattern :=
  match ps.map parts with
  | first :: rest =>
    if (first :: rest).all (1 < ·.length) then rest.foldl commonBeginning first else []
  | [] => []

/-- The canonical choice among canonical patterns. -/
def factoredChoice (ps : List Pattern) : Pattern :=
  match ps.flatMap branches with
  | [p] => p
  | ps =>
    match sharedBeginning ps with
    | [] => plainChoice ps
    | shared =>
      let endings := ps.map fun p => sequence (p.parts.drop shared.length)
      sequence (shared ++ [plainChoice (endings.flatMap branches)])

/-! ## The canonical form -/

/-- Whether only the empty text matches. -/
def isEmptyOnly : Pattern → Bool
  | literal chars => chars.isEmpty
  | set _ _ | any => false
  | seq p q | alt p q => p.isEmptyOnly && q.isEmptyOnly
  | group p => p.isEmptyOnly
  | repeated _ _ p => p.isEmptyOnly

/-- A repeat of a canonical pattern. To repeat the empty text more than once is pointless. -/
def factoredRepeat (quantifier : Quantifier) (greedy : Bool) (p : Pattern) : Pattern :=
  if p.isEmptyOnly then
    match quantifier with
    | .oneOrMore => p
    | _ => repeated .optional greedy p
  else repeated quantifier greedy p

mutual

/-- The canonical form of a pattern. -/
def factored : Pattern → Pattern
  | literal chars => literal chars
  | set negated items => ofRanges (setRanges negated items)
  | any => ofRanges [(0, lastCodePoint)]
  | seq p q => p.factored.append q.factored
  | alt p q => factoredChoice (p.factoredBranches ++ q.factoredBranches)
  | group p => p.factored
  | repeated quantifier greedy p => factoredRepeat quantifier greedy p.factored

/-- The canonical forms of the alternatives of a choice. -/
def factoredBranches : Pattern → List Pattern
  | alt p q => p.factoredBranches ++ q.factoredBranches
  | literal chars => [literal chars]
  | set negated items => [ofRanges (setRanges negated items)]
  | any => [ofRanges [(0, lastCodePoint)]]
  | seq p q => [p.factored.append q.factored]
  | group p => [p.factored]
  | repeated quantifier greedy p => [factoredRepeat quantifier greedy p.factored]

end

end Lexeme.Pattern
