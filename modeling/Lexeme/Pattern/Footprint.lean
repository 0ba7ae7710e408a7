import Lexeme.Pattern.Factored
import Lexeme.Pattern.Layout
import Lexeme.Text.ByteRanges

/-!
# The footprint of patterns

A matcher holds its text in UTF-8 and is built for two machines over bytes, one that reads forward and one that reads
backward. This module lays out the states of these machines. Their sizes are given in bytes, and a matcher with a
machine that takes more than `footprintLimit` is refused.

Every state takes `stateSize` bytes. A state that forks takes more for each target, and a state that waits for one of
several ranges of bytes takes more for each range. A set is laid out as a tree of sequences of bytes. Forward, states
with the same ways to the end are shared; backward, states with the same ways from the beginning are.
-/

namespace Lexeme.Pattern

/-- Which way a machine reads. -/
inductive Direction where
  | forward
  | backward
deriving DecidableEq, Repr

/-- Machines take at most ten mebibytes. -/
def footprintLimit : Nat := 10 <<< 20

def stateSize : Nat := 32

/-- The size of a state that forks. -/
def forkSize (targets : Nat) : Nat := stateSize + 4 * targets

/-- The size of a state that waits for one of several ranges of bytes. -/
def switchSize (ranges : Nat) : Nat := stateSize + 8 * ranges

/-- Lays out a state that does nothing or waits for one range of bytes. -/
def layPlain : Laying Unit := discard (layState stateSize)

/-- Lays out a state that forks. -/
def layFork (targets : Nat) : Laying Unit := discard (layState (forkSize targets))

/-- Lays out a state that waits for one of several ranges of bytes. -/
def laySwitch (ranges : Nat) : Laying Unit := discard (layState (switchSize ranges))

/-- The first letters of words, each with the rests of its words, in the order of the words. -/
def branchesOf {α : Type} [DecidableEq α] (words : List (List α)) : List (α × List (List α)) :=
  (words.filterMap List.head?).eraseDups.map fun a => (a, words.filterMap fun
    | [] => none
    | b :: rest => if b = a then some rest else none)

/-! ## Sets -/

/-- The greatest number of bytes in a character. -/
def maxBytes : Nat := 4

/-- The slots of the memory for ways to the end, and of that for ways from the beginning. -/
def Direction.slots : Direction → Nat
  | forward => 10000
  | backward => 1000

/-- Lays out the tree of sequences up to a length, its leaves before what leads to them. All sequences end in the state
`last`. -/
def layTree (last : Nat) : Nat → List (List Text.ByteRange) → SharedLaying Nat
  | 0, _ => return last
  | length + 1, sequences => do
    let targets ← (branchesOf sequences).mapM fun ((low, high), rests) => do
      let next ← if rests.all List.isEmpty then pure last else layTree last length rests
      return [low.toNat, high.toNat, next]
    layShared targets.flatten (switchSize targets.length)

/-- Lays out a sequence from its first range on, after the state `last`. -/
def layChain (last : Nat) (sequence : List Text.ByteRange) : SharedLaying Unit :=
  discard (sequence.foldlM (fun after (low, high) => layShared [after, low.toNat, high.toNat] stateSize) last)

/-- Lays out a set. One of ASCII characters is a single state that waits for the next byte, and the state after it. -/
def laySet (direction : Direction) (ranges : Ranges) : Laying Unit := do
  if ranges.all (·.2 < 0x80) then
    layPlain
    laySwitch ranges.length
  else
    let sequences := ranges.flatMap fun r => Text.byteSequences r.1 r.2
    match direction with
    | .forward =>
      let last ← layState stateSize
      discard ((layTree last maxBytes sequences).run (.empty direction.slots))
    | .backward =>
      layFork sequences.length
      let last ← layState stateSize
      discard ((sequences.forM (layChain last)).run (.empty direction.slots))

/-! ## Literals -/

/-- The bytes of a literal. -/
def bytes (chars : List Char) : List UInt8 := chars.flatMap String.utf8EncodeChar

/-- The bytes of a literal in the order in which they are read. -/
def bytesRead (direction : Direction) (chars : List Char) : List UInt8 :=
  match direction with
  | .forward => bytes chars
  | .backward => (bytes chars).reverse

/-- Lays out a literal, which has a state for each byte. Nothing is a state, too. -/
def layLiteral (chars : List Char) : Laying Unit := discard (layStates (max 1 (bytes chars).length) stateSize)

/-- The words between the empty ones. Empty words before all others count as one. -/
def stretches (words : List (List UInt8)) : List (List (List UInt8)) :=
  let rest := words.dropWhile List.isEmpty
  (if rest.length < words.length then [] :: rest else words).splitOn []

/-- Lays out the tree of words up to a length. At each place in the tree a word can end, and those that go on before it
and after it are looked for one after the other. -/
def layWords : Nat → List (List UInt8) → Laying Unit
  | 0, _ => return
  | length + 1, words => do
    if words.any (!·.isEmpty) then
      let places := (stretches words).map branchesOf
      let waiting := places.filter (!·.isEmpty)
      layFork (waiting.length + (places.length - 1))
      waiting.forM fun targets => do
        if targets.length = 1 then layPlain else laySwitch targets.length
        targets.forM fun (_, rests) => layWords length rests

/-- The characters of a literal that is not empty. -/
def literal? : Pattern → Option (List Char)
  | literal [] => none
  | literal chars => some chars
  | _ => none

/-- Lays out a choice among literals. -/
def layLiterals (direction : Direction) (texts : List (List Char)) : Laying Unit := do
  let words := texts.map (bytesRead direction)
  layPlain
  layWords ((words.map List.length).max?.getD 0) words

/-! ## Choices -/

/-- Which of several alternatives something is, counted from zero on. -/
structure Alternative where
  index : Nat
  count : Nat
deriving DecidableEq, Repr

/-- Lays out what follows an alternative: after the second one, the state that forks and the one where all alternatives
end. -/
def Alternative.layEnd (a : Alternative) : Laying Unit := do
  if a.index = 1 then
    layFork a.count
    layPlain

/-- Lays out what follows a pattern, if it is an alternative. -/
def layEnd (place : Option Alternative) : Laying Unit := place.elim (pure ()) Alternative.layEnd

/-- The number of alternatives in a choice. -/
def branchCount : Pattern → Nat
  | alt p q => p.branchCount + q.branchCount
  | _ => 1

/-! ## Patterns -/

/-- Whether there is an empty set in a canonical pattern. -/
def hasEmptySet : Pattern → Bool
  | literal _ | any => false
  | set _ items => items.isEmpty
  | seq p q | alt p q => p.hasEmptySet || q.hasEmptySet
  | group p | repeated _ _ p => p.hasEmptySet

/-- Whether every text of a canonical pattern surely has a character in it: an empty set in it leaves that open. -/
def isProper (p : Pattern) : Bool := !p.isNullable && !p.hasEmptySet

/-- Lays out two parts of a sequence in the order in which they are read. -/
def layBoth (direction : Direction) (first second : Laying Unit) : Laying Unit :=
  match direction with
  | .forward => do first; second
  | .backward => do second; first

/-- Lays out a repeat, whose body is laid out by `inner`. -/
def layRepeat (quantifier : Quantifier) (p : Pattern) (inner : Laying Unit) : Laying Unit :=
  match quantifier with
  | .optional => do layFork 2; inner; layPlain
  | .oneOrMore => do inner; layFork 2
  | .zeroOrMore =>
    if p.isProper then do layFork 2; inner
    else do inner; layFork 2; layFork 2; layPlain

/-- Lays out a canonical pattern, which can be an alternative of a choice. Its sets are lists of ranges. -/
def lay (direction : Direction) (place : Option Alternative) : Pattern → Laying Unit
  | literal chars => do layLiteral chars; layEnd place
  | set _ items => do laySet direction (items.map itemRange); layEnd place
  | any => do laySet direction [(0, lastCodePoint)]; layEnd place
  | seq p q => do layBoth direction (p.lay direction none) (q.lay direction none); layEnd place
  | alt p q =>
    match place with
    | some ⟨index, count⟩ => do
      p.lay direction (some ⟨index, count⟩)
      q.lay direction (some ⟨index + p.branchCount, count⟩)
    | none =>
      match (p.branches ++ q.branches).mapM literal? with
      | some texts => layLiterals direction texts
      | none => do
        let count := p.branchCount + q.branchCount
        p.lay direction (some ⟨0, count⟩)
        q.lay direction (some ⟨p.branchCount, count⟩)
  | group p => p.lay direction place
  | repeated quantifier _ p => do layRepeat quantifier p (p.lay direction none); layEnd place

/-! ## Matchers -/

/-- Lays out what comes before the patterns: forward nothing but a state, since a match begins with the text; backward a
loop that takes any bytes. -/
def layOpening : Direction → Laying Unit
  | .forward => layPlain
  | .backward => do layFork 2; layPlain; laySwitch 1

/-- Lays out a canonical pattern that is bound to the beginning of a text and ends in a match. To match nothing it takes
no state. -/
def layBound (direction : Direction) (p : Pattern) : Laying Unit := do
  layBoth direction layPlain (if p = literal [] then pure () else p.lay direction none)
  layPlain

/-- Lays out the machine for one canonical pattern. Forward, it marks both ends of a match. -/
def layMachine (direction : Direction) (p : Pattern) : Laying Unit := do
  layOpening direction
  match direction with
  | .forward => do layPlain; layBound direction p; layPlain
  | .backward => layBound direction p

/-- Lays out the machine that tells which of several canonical patterns match. -/
def layMachines (direction : Direction) (ps : List Pattern) : Laying Unit := do
  layOpening direction
  ps.zipIdx.forM fun (p, index) => do
    layBound direction p
    Alternative.layEnd ⟨index, ps.length⟩

/-- Whether there is room enough for a machine. -/
def fits (machine : Laying Unit) : Bool := (machine.run ⟨0, footprintLimit⟩).isSome

/-- Whether the matcher of a pattern is refused for its footprint. -/
def isTooLarge (p : Pattern) : Bool :=
  let canonical := p.factored
  !(fits (layMachine .backward canonical) && fits (layMachine .forward canonical))

/-- Whether the matchers of several patterns are refused for their joint footprint. -/
def areTooLarge (ps : List Pattern) : Bool :=
  let canonical := ps.map factored
  !(fits (layMachines .backward canonical) && fits (layMachines .forward canonical))

end Lexeme.Pattern
