/-!
# Sets of code points as ascending ranges

A Unicode property is a list of inclusive ranges in ascending order. Membership reads the list from the left and
stops at the first range that begins beyond the code point.
-/

namespace Lexeme.Text

/-- Whether `n` lies in one of the ranges, which ascend. -/
def within : List (Nat × Nat) → Nat → Bool
  | [], _ => false
  | (low, high) :: rest, n => if n < low then false else n ≤ high || within rest n

/-- Membership names a range that holds the code point. -/
theorem exists_range_of_within {ranges : List (Nat × Nat)} {n : Nat} (h : within ranges n = true) :
    ∃ r ∈ ranges, r.1 ≤ n ∧ n ≤ r.2 := by
  induction ranges with
  | nil => simp [within] at h
  | cons r rest ih =>
    obtain ⟨low, high⟩ := r
    by_cases hlow : n < low
    · simp [within, hlow] at h
    · by_cases hhigh : n ≤ high
      · exact ⟨(low, high), List.mem_cons_self, Nat.not_lt.mp hlow, hhigh⟩
      · obtain ⟨r, hr, hn⟩ := ih (by simpa [within, hlow, hhigh] using h)
        exact ⟨r, List.mem_cons_of_mem _ hr, hn⟩

end Lexeme.Text
