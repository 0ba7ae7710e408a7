import Lexeme.Grammar.Basic
import Lexeme.Pattern.Machine
import Lexeme.Segment

/-!
# Cutting by matchers

A matcher finds texts of one category by a pattern. At every place of a text the matcher with the longest match wins,
and of several such the first; the text is cut there, and the next match begins where it ends. A match of no
characters does not count.

All matchers are asked first whether they match at all (`candidates`); only those that do are asked for the length.
-/

namespace Lexeme

/-- A pattern with the category of its texts and what becomes of them. Messages call the matcher `label`. -/
structure Matcher where
  label : String
  category : Nat
  action : Action
  pattern : Pattern
  machine : Pattern.Machine
  machine_eq : machine = pattern.machine

namespace Matcher

/-- The matcher for a pattern. -/
def ofPattern (label : String) (category : Nat) (action : Action) (pattern : Pattern) : Matcher :=
  ⟨label, category, action, pattern, pattern.machine, rfl⟩

/-- The pattern in the notation of regular expressions, bound to the beginning of a text. -/
def source (m : Matcher) : String := "^" ++ m.pattern.text

/-- The length of the match at the beginning of a text. -/
def matchLength? (m : Matcher) (s : List Char) : Option Nat := m.machine.matchLength? s

/-- The category and the channel of the tokens of a matcher. -/
def place (m : Matcher) : Option (Nat × Nat) :=
  match m.action with
  | .emit channel => some (m.category, channel)
  | .skip => none

/-- The better of the best match so far and that of one more matcher. -/
def better (s : List Char) (best : Option (Nat × Matcher)) (m : Matcher) : Option (Nat × Matcher) :=
  match m.matchLength? s with
  | some length => if 0 < length ∧ best.all (·.1 < length) then some (length, m) else best
  | none => best

/-- The matchers with a match at the beginning of a text, even one of no characters. No other has to be run. -/
def candidates (matchers : List Matcher) (s : List Char) : List Matcher :=
  matchers.filter (·.machine.accepts s)

/-- The longest match of several matchers, and the first matcher with a match of that length. -/
def best? (matchers : List Matcher) (s : List Char) : Option (Nat × Matcher) :=
  (candidates matchers s).foldl (better s) none

/-- A match that wins over the best so far has characters if that has. -/
theorem better_pos {s : List Char} {best : Option (Nat × Matcher)} {m : Matcher} (hbest : ∀ b, best = some b → 0 < b.1) :
    ∀ b, better s best m = some b → 0 < b.1 := by
  intro b hb
  unfold better at hb
  split at hb
  · split at hb
    · next hlength =>
      cases hb
      exact hlength.1
    · exact hbest b hb
  · exact hbest b hb

theorem best?_pos {matchers : List Matcher} {s : List Char} {length : Nat} {m : Matcher}
    (h : best? matchers s = some (length, m)) : 0 < length := by
  have hfold (ms : List Matcher) (best : Option (Nat × Matcher)) (hbest : ∀ b, best = some b → 0 < b.1) :
      ∀ b, ms.foldl (better s) best = some b → 0 < b.1 := by
    induction ms generalizing best with
    | nil => exact hbest
    | cons m ms ih => exact ih (better s best m) (better_pos hbest)
  exact hfold (candidates matchers s) none (by simp) _ h

/-- Cuts a text; `done` holds the segments before it, last first. -/
def cutFrom (matchers : List Matcher) (done : List (Segment Matcher)) (s : List Char) : Cut Matcher Char :=
  match s with
  | [] => ⟨done.reverse, none⟩
  | c :: rest =>
    match _ : best? matchers (c :: rest) with
    | some (length, m) =>
      cutFrom matchers (⟨m, (c :: rest).take length⟩ :: done) ((c :: rest).drop length)
    | none => ⟨done.reverse, some c⟩
termination_by s.length
decreasing_by
  have := best?_pos ‹_›
  simp only [List.length_drop, List.length_cons]
  omega

/-- Cuts a whole text. -/
def cut (matchers : List Matcher) (s : List Char) : Cut Matcher Char := cutFrom matchers [] s

/-- The tokens of a text. -/
def tokens (matchers : List Matcher) (source : String) : Except LexingError (List Token) :=
  (cut matchers source.toList).tokens place fun p c => .noViableAlternative p (String.singleton c)

end Matcher

end Lexeme
