import Mathlib.Data.List.DropRight
import Lexeme.Proofs.Segment

/-!
# Where tokens stand

A position is counted character by character. Here it is told from the whole text before it: its offset is the number of
bytes of that text, its line counts the line feeds, and its column the characters after the last of them
(`Position.IsAfter`). The induction is on the text before, from its last character.

Counters of 32 bits say the same about every text that is shorter than what they can count (`Counters.agree_advanceBy`).

The tokens of a cut stand where their positions say, one after the other (`Segment.standIn_emitted`).
-/

namespace Lexeme

namespace Position

/-- Whether a position is the place after a text. -/
structure IsAfter (p : Position) (before : List Char) : Prop where
  offset_eq : p.offset = (String.ofList before).utf8ByteSize
  line_eq : p.line = 1 + before.count '\n'
  column_eq : p.column = 1 + (before.rtakeWhile (· ≠ '\n')).length

theorem isAfter_start : start.IsAfter [] := ⟨rfl, rfl, rfl⟩

theorem utf8ByteSize_concat (before : List Char) (c : Char) :
    (String.ofList (before ++ [c])).utf8ByteSize = (String.ofList before).utf8ByteSize + c.utf8Size := by
  rw [String.ofList_append, String.utf8ByteSize_append, ← String.singleton_eq_ofList, String.utf8ByteSize_singleton]

/-- One more character is counted as it should be. -/
theorem IsAfter.advance {p : Position} {before : List Char} (h : p.IsAfter before) (c : Char) :
    (p.advance c).IsAfter (before ++ [c]) := by
  obtain ⟨hoffset, hline, hcolumn⟩ := h
  have hbytes := utf8ByteSize_concat before c
  unfold Position.advance
  split
  · next hc =>
    subst hc
    have hsize : ('\n').utf8Size = 1 := rfl
    exact ⟨by rw [hbytes, hoffset, hsize], by simp [hline, Nat.add_assoc], by simp⟩
  · next hc =>
    exact ⟨by rw [hbytes, hoffset], by simp [hline, hc], by simp [hcolumn, hc, Nat.add_assoc]⟩

/-- The position that is reached by counting is the one after the text. -/
theorem isAfter_advanceBy (before : List Char) : (start.advanceBy before).IsAfter before := by
  induction before using List.reverseRecOn with
  | nil => exact isAfter_start
  | append_singleton before c ih =>
    rw [advanceBy_append]
    exact ih.advance c

/-- Text that follows moves the offset on by its bytes. -/
theorem offset_advanceBy_append (before text : List Char) :
    (start.advanceBy (before ++ text)).offset = (start.advanceBy before).offset + (String.ofList text).utf8ByteSize := by
  rw [(isAfter_advanceBy _).offset_eq, (isAfter_advanceBy _).offset_eq, String.ofList_append, String.utf8ByteSize_append]

end Position

/-! ## Counters of 32 bits -/

/-- Line and column in words of 32 bits, which come to zero after the greatest. -/
structure Counters where
  line : UInt32
  column : UInt32

namespace Counters

def start : Counters := ⟨1, 1⟩

def advance (n : Counters) (c : Char) : Counters := if c = '\n' then ⟨n.line + 1, 1⟩ else ⟨n.line, n.column + 1⟩

def advanceBy (n : Counters) (s : List Char) : Counters := s.foldl advance n

/-- Whether counters say the line and the column of a position. -/
structure Agree (n : Counters) (p : Position) : Prop where
  line_eq : n.line.toNat = p.line
  column_eq : n.column.toNat = p.column

theorem toNat_succ {n : UInt32} (h : n.toNat + 1 < UInt32.size) : (n + 1).toNat = n.toNat + 1 := by
  rw [UInt32.toNat_add, UInt32.toNat_one, Nat.mod_eq_of_lt h]

/-- A step agrees with the step of a position, below the greatest numbers. -/
theorem Agree.advance {n : Counters} {p : Position} (h : n.Agree p) (hline : p.line + 1 < UInt32.size)
    (hcolumn : p.column + 1 < UInt32.size) (c : Char) : (n.advance c).Agree (p.advance c) := by
  obtain ⟨hn, hm⟩ := h
  rw [← hn] at hline
  rw [← hm] at hcolumn
  unfold Counters.advance Position.advance
  split_ifs
  · exact ⟨(toNat_succ hline).trans (congrArg (· + 1) hn), rfl⟩
  · exact ⟨hn, (toNat_succ hcolumn).trans (congrArg (· + 1) hm)⟩

/-- Counters of 32 bits say line and column after every text that is shorter than what they can count. -/
theorem agree_advanceBy {before : List Char} (h : before.length + 1 < UInt32.size) :
    (start.advanceBy before).Agree (Position.start.advanceBy before) := by
  induction before using List.reverseRecOn with
  | nil => exact ⟨rfl, rfl⟩
  | append_singleton before c ih =>
    rw [List.length_append, List.length_singleton] at h
    have hafter := Position.isAfter_advanceBy before
    have hline : (Position.start.advanceBy before).line ≤ before.length + 1 := by
      rw [hafter.line_eq, Nat.add_comm]
      exact Nat.succ_le_succ List.count_le_length
    have hcolumn : (Position.start.advanceBy before).column ≤ before.length + 1 := by
      rw [hafter.column_eq, Nat.add_comm]
      exact Nat.succ_le_succ (List.rtakeWhile_suffix _ before).length_le
    rw [advanceBy, List.foldl_append, Position.advanceBy_append]
    exact (ih (by omega)).advance (by omega) (by omega) c

end Counters

/-- Whether tokens stand in a text where their positions say, one after the other. -/
structure StandIn (source : List Char) (ts : List Token) : Prop where
  /-- Every token has the position after some beginning of the text, and the text goes on with the token. -/
  stands : ∀ t ∈ ts, ∃ before after, source = before ++ t.text.toList ++ after ∧ t.position.IsAfter before
  /-- No token begins before one that comes earlier in the list. -/
  ascending : ts.Pairwise fun t u => t.position.offset ≤ u.position.offset
  /-- No token begins before the end of one that comes earlier. -/
  apart : ts.Pairwise fun t u => t.position.offset + t.text.utf8ByteSize ≤ u.position.offset

namespace Segment

variable {κ : Type} {place : κ → Option (Nat × Nat)}

/-- A token of consecutive segments stands after the text before it. -/
theorem exists_before_of_mem_emitted {before : List Char} {segments : List (Segment κ)} {t : Token}
    (ht : t ∈ emitted place before segments) :
    ∃ first after, joined segments = first ++ t.text.toList ++ after ∧
      t.position = Position.start.advanceBy (before ++ first) := by
  obtain ⟨ts, us, hsplit⟩ := List.append_of_mem ht
  obtain ⟨first, s, last, rfl, htoken, -, -⟩ := exists_segment_of_emitted hsplit
  obtain ⟨htext, -, hposition⟩ := token?_eq_some_iff.mp htoken
  exact ⟨joined first, joined last, by simp [htext], hposition⟩

/-- The tokens of consecutive segments begin one after the end of the other. -/
theorem pairwise_emitted (before : List Char) (segments : List (Segment κ)) :
    (emitted place before segments).Pairwise
      fun t u => t.position.offset + t.text.utf8ByteSize ≤ u.position.offset := by
  induction segments generalizing before with
  | nil => exact .nil
  | cons s rest ih =>
    rw [emitted]
    refine List.pairwise_append.mpr ⟨?_, ih (before ++ s.text), ?_⟩
    · cases token? place before s with
      | none => exact .nil
      | some t => exact List.pairwise_singleton _ t
    · intro t ht u hu
      obtain ⟨htext, -, hposition⟩ := token?_eq_some_iff.mp (Option.mem_toList.mp ht)
      obtain ⟨first, -, -, hu⟩ := exists_before_of_mem_emitted hu
      rw [hposition, hu, htext, Position.offset_advanceBy_append, Position.offset_advanceBy_append]
      exact Nat.le_add_right _ _

/-- The tokens of a text that is cut to its end stand in it. -/
theorem standIn_emitted (segments : List (Segment κ)) : StandIn (joined segments) (emitted place [] segments) where
  stands := by
    intro t ht
    obtain ⟨before, after, hjoined, hposition⟩ := exists_before_of_mem_emitted ht
    exact ⟨before, after, hjoined, hposition ▸ Position.isAfter_advanceBy before⟩
  ascending := (pairwise_emitted [] segments).imp fun h => Nat.le_of_add_right_le h
  apart := pairwise_emitted [] segments

end Segment

end Lexeme
