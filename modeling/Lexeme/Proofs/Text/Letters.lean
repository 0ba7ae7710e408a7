import Lexeme.Grammar.Symbol
import Mathlib

/-!
# Letters and white space

Facts about the tables of characters: an uppercase letter is a letter (`isAlphabetic_of_isUppercase`), and white space has
no place in a name (`isNameChar_eq_false_of_isBlank`).
-/

namespace Lexeme

namespace Text

/-- A range of an ascending table holds its code points. -/
theorem within_of_mem {ranges : List (Nat × Nat)} (h : ranges.Pairwise fun r s => r.1 ≤ s.1) {r : Nat × Nat} (hr : r ∈ ranges)
    {n : Nat} (hlow : r.1 ≤ n) (hhigh : n ≤ r.2) : within ranges n = true := by
  induction ranges with
  | nil => cases hr
  | cons s rest ih =>
    obtain ⟨hfirst, hrest⟩ := List.pairwise_cons.mp h
    rcases List.mem_cons.mp hr with rfl | hr
    · rw [within, if_neg (by omega)]
      simp [hhigh]
    · have hle : s.1 ≤ r.1 := hfirst r hr
      rw [within, if_neg (by omega)]
      simp [ih hrest hr]

/-- Whether all ranges of the second table lie in ranges of the first, in the order of both. -/
def coversAll : List (Nat × Nat) → List (Nat × Nat) → Bool
  | [], rs => rs.isEmpty
  | s :: rest, rs => coversAll rest (rs.dropWhile fun r => s.1 ≤ r.1 && r.2 ≤ s.2)

theorem exists_range_of_coversAll {ranges rs : List (Nat × Nat)} (h : coversAll ranges rs = true) :
    ∀ r ∈ rs, ∃ s ∈ ranges, s.1 ≤ r.1 ∧ r.2 ≤ s.2 := by
  induction ranges generalizing rs with
  | nil =>
    rw [List.isEmpty_iff.mp h]
    nofun
  | cons s rest ih =>
    intro r hr
    rw [← @List.takeWhile_append_dropWhile _ (fun r => decide (s.1 ≤ r.1) && decide (r.2 ≤ s.2)) rs] at hr
    rcases List.mem_append.mp hr with hr | hr
    · have hin := List.all_eq_true.mp List.all_takeWhile r hr
      exact ⟨s, List.mem_cons_self, by simpa using hin⟩
    · obtain ⟨t, ht, hin⟩ := ih h r hr
      exact ⟨t, List.mem_cons_of_mem _ ht, hin⟩

theorem ascending_alphabeticRanges : alphabeticRanges.Pairwise fun r s => r.1 ≤ s.1 := by
  have hchain : alphabeticRanges.IsChain fun r s => r.1 ≤ s.1 := by decide +kernel
  have : @Trans (Nat × Nat) (Nat × Nat) (Nat × Nat) (fun r s => r.1 ≤ s.1) (fun r s => r.1 ≤ s.1) (fun r s => r.1 ≤ s.1) :=
    ⟨Nat.le_trans⟩
  exact List.isChain_iff_pairwise.mp hchain

theorem coversAll_uppercaseRanges : coversAll alphabeticRanges uppercaseRanges = true := by
  decide +kernel

/-- An uppercase letter is a letter. -/
theorem isAlphabetic_of_isUppercase {c : Char} (h : isUppercase c = true) : isAlphabetic c = true := by
  rcases Bool.or_eq_true_iff.mp h with h | h
  · simp [isAlphabetic, Char.isAlpha, h]
  · obtain ⟨hascii, hwithin⟩ := Bool.and_eq_true_iff.mp h
    obtain ⟨r, hr, hlow, hhigh⟩ := exists_range_of_within hwithin
    obtain ⟨s, hs, hlow', hhigh'⟩ := exists_range_of_coversAll coversAll_uppercaseRanges r hr
    have halphabetic := within_of_mem ascending_alphabeticRanges hs (Nat.le_trans hlow' hlow) (Nat.le_trans hhigh hhigh')
    simp [isAlphabetic, of_decide_eq_true hascii, halphabetic]

/-- A letter is no digit. -/
theorem isDigit_eq_false_of_isAlphabetic {c : Char} (h : isAlphabetic c = true) : c.isDigit = false := by
  have hbounds : 65 ≤ c.toNat := by
    simp only [isAlphabetic, Char.isAlpha, Char.isUpper, Char.isLower, UInt32.le_iff_toNat_le] at h
    simp at h
    omega
  simp only [Char.isDigit, UInt32.le_iff_toNat_le]
  simp
  omega

/-- Two tables that have no code point in common. -/
theorem within_eq_false_of_apart {ranges others : List (Nat × Nat)}
    (h : ∀ r ∈ ranges, ∀ s ∈ others, r.2 < s.1 ∨ s.2 < r.1) {n : Nat} (hn : within ranges n = true) :
    within others n = false := by
  cases hother : within others n with
  | false => rfl
  | true =>
    obtain ⟨r, hr, hlow, hhigh⟩ := exists_range_of_within hn
    obtain ⟨s, hs, hlow', hhigh'⟩ := exists_range_of_within hother
    have := h r hr s hs
    omega

theorem blank_apart_alphabetic : ∀ r ∈ blankRanges, ∀ s ∈ alphabeticRanges, r.2 < s.1 ∨ s.2 < r.1 := by
  decide +kernel

theorem blank_apart_numeric : ∀ r ∈ blankRanges, ∀ s ∈ numericRanges, r.2 < s.1 ∨ s.2 < r.1 := by
  decide +kernel

end Text

namespace Grammar

/-- The code points of digits, uppercase letters, the underscore and lowercase letters in ASCII. -/
def asciiNameRanges : List (Nat × Nat) := [(48, 57), (65, 90), (95, 95), (97, 122)]

theorem blank_apart_ascii : ∀ r ∈ Text.blankRanges, ∀ s ∈ asciiNameRanges, r.2 < s.1 ∨ s.2 < r.1 := by
  decide

/-- White space has no place in a name. -/
theorem isNameChar_eq_false_of_isBlank {c : Char} (h : Text.isBlank c = true) : isNameChar c = false := by
  have halphabetic := Text.within_eq_false_of_apart Text.blank_apart_alphabetic h
  have hnumeric := Text.within_eq_false_of_apart Text.blank_apart_numeric h
  have hascii := Text.within_eq_false_of_apart blank_apart_ascii h
  have hbounds : ¬ (48 ≤ c.toNat ∧ c.toNat ≤ 57) ∧ ¬ (65 ≤ c.toNat ∧ c.toNat ≤ 90) ∧ c.toNat ≠ 95 ∧
      ¬ (97 ≤ c.toNat ∧ c.toNat ≤ 122) := by
    simp only [asciiNameRanges, Text.within] at hascii
    split_ifs at hascii <;> simp at hascii <;> omega
  have halpha : c.isAlpha = false := by
    simp only [Char.isAlpha, Char.isUpper, Char.isLower, UInt32.le_iff_toNat_le]
    simp
    omega
  have hdigit : c.isDigit = false := by
    simp only [Char.isDigit, UInt32.le_iff_toNat_le]
    simp
    omega
  have hunderscore : c ≠ '_' := by
    rintro rfl
    exact hbounds.2.2.1 rfl
  simp [isNameChar, Text.isAlphabetic, Text.isNumeric, halphabetic, hnumeric, halpha, hdigit, hunderscore]

end Grammar

end Lexeme
