import Std.Data.HashSet
import Lexeme.Pattern.Basic

/-!
# Matching by a program

A pattern is compiled into a program for a machine with many threads. A thread stands at an instruction; threads are
in order of preference. Instructions that take no character are followed at once, each at most once between two
characters; a thread that waits for a character survives if the next character is in its set.

The machine reports either the longest match or the first one in order of preference. In the second case a thread that
accepts ends all threads after it.
-/

namespace Lexeme.Pattern

inductive Instruction where
  | accept
  | take (negated : Bool) (items : List SetItem) (next : Nat)
  | jump (next : Nat)
  | fork (first second : Nat)
deriving Repr

/-- The number of instructions of a pattern. -/
def size : Pattern → Nat
  | literal chars => chars.length + 1
  | set _ _ => 1
  | any => 1
  | seq p q => p.size + q.size
  | alt p q => p.size + q.size + 1
  | group p => p.size
  | repeated .optional _ p => p.size + 1
  | repeated .zeroOrMore _ p => if p.isNullable then p.size + 2 else p.size + 1
  | repeated .oneOrMore _ p => p.size + 1

/-- A fork that prefers `again` if greedy and `done` if not. -/
def loopFork (greedy : Bool) (again done : Nat) : Instruction :=
  if greedy then .fork again done else .fork done again

/-- The instructions for a text, from address `start` on. -/
def literalCode (start next : Nat) : List Char → List Instruction
  | [] => [.jump next]
  | c :: rest => .take false [.single c] (start + 1) :: literalCode (start + 1) next rest

/-- The instructions of a pattern: entered at address `start`, the first, and left for address `next`. A loop whose
body can match the empty text is entered at a fork of its own, so that the body is tried once before the loop is
left. -/
def code (start next : Nat) : Pattern → List Instruction
  | literal chars => literalCode start next chars
  | set negated items => [.take negated items next]
  | any => [.take true [] next]
  | seq p q => p.code start (start + p.size) ++ q.code (start + p.size) next
  | alt p q =>
    .fork (start + 1) (start + 1 + p.size) :: p.code (start + 1) next ++ q.code (start + 1 + p.size) next
  | group p => p.code start next
  | repeated .optional greedy p => loopFork greedy (start + 1) next :: p.code (start + 1) next
  | repeated .zeroOrMore greedy p =>
    if p.isNullable then
      loopFork greedy (start + 1) next :: p.code (start + 1) (start + 1 + p.size) ++
        [loopFork greedy (start + 1) next]
    else loopFork greedy (start + 1) next :: p.code (start + 1) start
  | repeated .oneOrMore greedy p => p.code start (start + p.size) ++ [loopFork greedy start next]

abbrev Program := Array Instruction

/-- The program of a pattern. It starts at address zero. -/
def program (p : Pattern) : Program :=
  (p.code 0 p.size ++ [Instruction.accept]).toArray

namespace Program

/-- The addresses that have been reached since the last character. -/
abbrev Reached := Std.HashSet Nat

/-- Follows the addresses in `work` to the threads that they lead to, which are put before `threads`, last first. Each
new address takes one from `budget`. -/
def follow (program : Program) (budget : Nat) (work : List Nat) (reached : Reached) (threads : List Nat) :
    Reached × List Nat :=
  match budget, work with
  | _, [] => (reached, threads)
  | 0, _ => (reached, threads)
  | budget + 1, address :: work =>
    if reached.contains address then follow program (budget + 1) work reached threads
    else
      let reached := reached.insert address
      match program[address]? with
      | some (.jump next) => follow program budget (next :: work) reached threads
      | some (.fork first second) => follow program budget (first :: second :: work) reached threads
      | some _ => follow program budget work reached (address :: threads)
      | none => follow program budget work reached threads
termination_by (budget, work)

/-- The threads that an address leads to. -/
def startThreads (program : Program) : List Nat :=
  (follow program program.size [0] ∅ []).2.reverse

/-- The threads after a character. -/
def step (program : Program) (c : Char) (threads : List Nat) : List Nat :=
  let advance (state : Reached × List Nat) (address : Nat) : Reached × List Nat :=
    match program[address]? with
    | some (.take negated items next) =>
      if inSet negated items c then follow program program.size [next] state.1 state.2 else state
    | _ => state
  (threads.foldl advance (∅, [])).2.reverse

def isAccept (program : Program) (address : Nat) : Bool :=
  match program[address]? with
  | some .accept => true
  | _ => false

/-- Which match a program is run for. -/
inductive Goal where
  | longest
  | first
deriving DecidableEq, Repr

/-- The threads that go on when some thread may have accepted. -/
def survivors (program : Program) (goal : Goal) (threads : List Nat) : List Nat :=
  match goal with
  | .longest => threads.filter (!program.isAccept ·)
  | .first => threads.takeWhile (!program.isAccept ·)

/-- Runs the threads on a text. `count` characters have been taken, and `best` is the length of the best match. -/
def run (program : Program) (goal : Goal) (threads : List Nat) (count : Nat) (best : Option Nat) :
    List Char → Option Nat
  | [] => if threads.any program.isAccept then some count else best
  | c :: rest =>
    let best := if threads.any program.isAccept then some count else best
    match program.survivors goal threads with
    | [] => best
    | threads => run program goal (program.step c threads) (count + 1) best rest

/-- Whether the threads accept some beginning of a text. -/
def accepts (program : Program) (threads : List Nat) : List Char → Bool
  | [] => threads.any program.isAccept
  | c :: rest =>
    threads.any program.isAccept || (!threads.isEmpty && accepts program (program.step c threads) rest)

/-- The length of the match at the beginning of a text. -/
def matchLength? (program : Program) (goal : Goal) (s : List Char) : Option Nat :=
  program.run goal program.startThreads 0 none s

end Program

end Lexeme.Pattern
