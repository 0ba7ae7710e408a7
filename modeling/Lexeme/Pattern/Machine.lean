import Lexeme.Pattern.Factored
import Lexeme.Pattern.Program

/-!
# Machines that match patterns

A pattern without lazy repeats is matched by its longest match. A lazy repeat asks for a preference among matches, and
then the first match of the factored pattern is what counts.
-/

namespace Lexeme.Pattern

/-- A program with its threads at the beginning of a text. -/
structure Machine where
  program : Program
  goal : Program.Goal
  start : List Nat
deriving Repr

/-- The machine of a program. -/
def Program.machine (program : Program) (goal : Goal) : Machine := ⟨program, goal, program.startThreads⟩

/-- The machine of a pattern. -/
def machine (p : Pattern) : Machine :=
  if p.isLazy then p.factored.program.machine .first else p.program.machine .longest

/-- The length of the match at the beginning of a text. -/
def Machine.matchLength? (m : Machine) (s : List Char) : Option Nat :=
  m.program.run m.goal m.start 0 none s

/-- Whether some beginning of a text matches. -/
def Machine.accepts (m : Machine) (s : List Char) : Bool :=
  m.program.accepts m.start s

theorem Program.matchLength?_machine (program : Program) (goal : Goal) (s : List Char) :
    (program.machine goal).matchLength? s = program.matchLength? goal s := rfl

end Lexeme.Pattern
