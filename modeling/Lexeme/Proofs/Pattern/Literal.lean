import Lexeme.Pattern.Machine

/-!
# The machine of a literal

The program of a literal takes its characters one after the other, then jumps, and accepts. So there is only one thread at
any time, and the machine matches just the texts that begin with the literal, at its length
(`matchLength?_literal`).
-/

namespace Lexeme.Pattern

/-! ## The program -/

theorem getElem?_literalCode (start next : Nat) (text : List Char) : ∀ {i : Nat},
    (literalCode start next text)[i]? =
      if h : i < text.length then some (.take false [.single text[i]] (start + i + 1))
      else if i = text.length then some (.jump next) else none := by
  induction text generalizing start with
  | nil =>
    intro i
    cases i <;> simp [literalCode]
  | cons c text ih =>
    intro i
    cases i with
    | zero => simp [literalCode]
    | succ i => simp [literalCode, ih, Nat.add_comm, Nat.add_left_comm]

theorem length_literalCode (start next : Nat) (text : List Char) : (literalCode start next text).length = text.length + 1 := by
  induction text generalizing start with
  | nil => rfl
  | cons c text ih => simp [literalCode, ih]

namespace Literal

variable (text : List Char)

/-- The program of the literal. -/
def prog : Program := (Pattern.literal text).program

/-- The only thread when `i` characters have been taken: it waits for the next one, or it accepts. -/
def threads (i : Nat) : List Nat := [if i < text.length then i else text.length + 1]

theorem size_prog : (prog text).size = text.length + 2 := by
  simp [prog, program, code, length_literalCode]

theorem take_prog {i : Nat} (h : i < text.length) : (prog text)[i]? = some (.take false [.single text[i]] (i + 1)) := by
  have hlt : i < (literalCode 0 (Pattern.literal text).size text).length := by
    rw [length_literalCode]
    omega
  rw [prog, program, code, List.getElem?_toArray, List.getElem?_append_left hlt, getElem?_literalCode, dif_pos h]
  simp

theorem jump_prog : (prog text)[text.length]? = some (.jump (text.length + 1)) := by
  have hlt : text.length < (literalCode 0 (Pattern.literal text).size text).length := by
    rw [length_literalCode]
    omega
  rw [prog, program, code, List.getElem?_toArray, List.getElem?_append_left hlt, getElem?_literalCode]
  simp [Pattern.size]

theorem accept_prog : (prog text)[text.length + 1]? = some .accept := by
  rw [prog, program, code, List.getElem?_toArray, List.getElem?_append_right (Nat.le_of_eq (length_literalCode _ _ _))]
  simp [length_literalCode]

/-! ## Its threads -/

variable {text}

/-- Following an address leads to the thread there. -/
theorem follow_prog {i : Nat} (h : i ≤ text.length) :
    (Program.follow (prog text) (prog text).size [i] ∅ []).2 = threads text i := by
  rw [size_prog, Program.follow, if_neg (by simp), threads]
  rcases Nat.lt_or_eq_of_le h with h | rfl
  · rw [take_prog text h, if_pos h]
    simp [Program.follow]
  · -- the jump is followed to the end of the program
    rw [jump_prog, if_neg (Nat.lt_irrefl _)]
    dsimp only
    rw [Program.follow, if_neg (by simp), accept_prog]
    simp [Program.follow]

theorem startThreads_prog : (prog text).startThreads = threads text 0 := by
  rw [Program.startThreads, follow_prog (Nat.zero_le _)]
  rfl

theorem step_prog {i : Nat} (h : i < text.length) (c : Char) :
    Program.step (prog text) c (threads text i) = if c = text[i] then threads text (i + 1) else [] := by
  rw [threads, if_pos h]
  simp only [Program.step, List.foldl_cons, List.foldl_nil, take_prog text h]
  by_cases hc : c = text[i]
  · have hin : inSet false [.single text[i]] c = true := by simp [inSet, inItems, SetItem.holds, hc]
    rw [if_pos hc, if_pos hin, follow_prog h]
    rfl
  · have hin : ¬inSet false [.single text[i]] c = true := by simp [inSet, inItems, SetItem.holds, hc]
    rw [if_neg hc, if_neg hin]
    rfl

theorem any_isAccept_prog {i : Nat} (h : i ≤ text.length) :
    (threads text i).any (prog text).isAccept = decide (i = text.length) := by
  rcases Nat.lt_or_eq_of_le h with h | rfl
  · simp [threads, h, Program.isAccept, take_prog text h, Nat.ne_of_lt h]
  · simp [threads, Program.isAccept, accept_prog]

/-! ## Its match -/

/-- Without threads nothing more is matched. -/
theorem run_nil (program : Program) (count : Nat) (s : List Char) : program.run .longest [] count none s = none := by
  cases s <;> rfl

/-- The threads go on as long as the text goes on like the literal. -/
theorem run_prog (s : List Char) : ∀ {i : Nat}, i ≤ text.length →
    (prog text).run .longest (threads text i) i none s = if text.drop i <+: s then some text.length else none := by
  induction s with
  | nil =>
    intro i h
    rw [Program.run, any_isAccept_prog h]
    rcases Nat.lt_or_eq_of_le h with h | rfl
    · have hdrop : ¬text.drop i <+: [] := by simp [List.drop_eq_nil_iff, h]
      simp [hdrop, Nat.ne_of_lt h]
    · simp
  | cons c s ih =>
    intro i h
    rw [Program.run, any_isAccept_prog h]
    rcases Nat.lt_or_eq_of_le h with h | rfl
    · -- the thread waits for a character
      have hlives : Program.survivors (prog text) .longest (threads text i) = threads text i :=
        List.filter_eq_self.mpr fun address haddress => by
          rw [threads, if_pos h, List.mem_singleton] at haddress
          simp [Program.isAccept, haddress, take_prog text h]
      have hbegins : text.drop i <+: c :: s ↔ text[i] = c ∧ text.drop (i + 1) <+: s := by
        rw [List.drop_eq_getElem_cons h, List.cons_prefix_cons]
      rw [hlives, decide_eq_false (Nat.ne_of_lt h)]
      change (prog text).run .longest (Program.step (prog text) c (threads text i)) (i + 1) none s = _
      rw [step_prog h]
      by_cases hc : c = text[i]
      · rw [if_pos hc, ih h]
        simp only [hbegins, hc.symm, true_and]
      · rw [if_neg hc, run_nil]
        simp [hbegins, Ne.symm hc]
    · -- the thread accepts, and no other is left
      have hdies : Program.survivors (prog text) .longest (threads text text.length) = [] :=
        List.filter_eq_nil_iff.mpr fun address haddress => by
          rw [threads, if_neg (Nat.lt_irrefl _), List.mem_singleton] at haddress
          simp [Program.isAccept, haddress, accept_prog]
      rw [hdies]
      simp

end Literal

/-- The machine of a literal matches just the texts that begin with the literal, and matches no more than the literal. -/
theorem matchLength?_literal (text s : List Char) :
    (literal text).machine.matchLength? s = if text <+: s then some text.length else none := by
  have hmachine : (literal text).machine = (Literal.prog text).machine .longest := rfl
  rw [hmachine, Program.matchLength?_machine, Program.matchLength?, Literal.startThreads_prog,
    Literal.run_prog s (Nat.zero_le _), List.drop_zero]

end Lexeme.Pattern
