import Lexeme.Log.Event
import Lexeme.Proofs.Text.Bytes

/-!
# Messages of bounded length

A message that is too long is cut where the limit falls, or where the character begins that the limit falls into. The place
is searched for backwards from the limit. What is kept is the longest beginning of whole characters within the limit
(`Text.IsLongestWithin`), which `Text.clip` finds from the front; since a character takes at most four bytes, the search
passes at most three places (`Text.exists_stopsAfter`).
-/

namespace Lexeme

namespace Text

/-! ## The longest beginning -/

/-- Whether `kept` is the longest beginning of a text that takes at most `limit` bytes. -/
structure IsLongestWithin (limit : Nat) (kept s : List Char) : Prop where
  begins : kept <+: s
  fits : byteCount kept ≤ limit
  longest : ∀ other, other <+: s → byteCount other ≤ limit → other <+: kept

theorem byteCount_clip_le (limit : Nat) (s : List Char) : byteCount (clip limit s) ≤ limit := by
  fun_induction clip limit s with
  | case1 => exact Nat.zero_le _
  | case2 limit c rest hfits ih =>
    rw [byteCount_cons]
    omega
  | case3 => exact Nat.zero_le _

theorem prefix_clip {limit : Nat} {other s : List Char} (h : other <+: s) (hfits : byteCount other ≤ limit) :
    other <+: clip limit s := by
  induction s generalizing limit other with
  | nil => exact h
  | cons c rest ih =>
    rcases List.prefix_cons_iff.mp h with rfl | ⟨inner, rfl, hinner⟩
    · exact List.nil_prefix
    · rw [byteCount_cons] at hfits
      rw [clip, if_pos (by omega)]
      exact List.cons_prefix_cons.mpr ⟨rfl, ih hinner (by omega)⟩

theorem isLongestWithin_clip (limit : Nat) (s : List Char) : IsLongestWithin limit (clip limit s) s :=
  ⟨clip_isPrefix limit s, byteCount_clip_le limit s, fun _ => prefix_clip⟩

/-- No boundary within the limit lies behind the longest beginning. -/
theorem IsBoundary.le_clip {limit n : Nat} {s : List Char} (h : IsBoundary s n) (hn : n ≤ limit) :
    n ≤ byteCount (clip limit s) := by
  obtain ⟨first, rest, hs, rfl⟩ := h
  obtain ⟨more, hmore⟩ := prefix_clip ⟨rest, hs⟩ hn
  rw [← hmore, byteCount_append]
  exact Nat.le_add_right _ _

theorem IsLongestWithin.eq_clip {limit : Nat} {kept s : List Char} (h : IsLongestWithin limit kept s) : kept = clip limit s :=
  (prefix_clip h.begins h.fits).eq_of_length_le (h.longest _ (clip_isPrefix limit s) (byteCount_clip_le limit s)).length_le

/-- The character that does not fit any more takes at most four bytes. -/
theorem limit_lt_clip {limit : Nat} {s : List Char} (h : limit < byteCount s) : limit < byteCount (clip limit s) + 4 := by
  fun_induction clip limit s with
  | case1 => cases h
  | case2 limit c rest hfits ih =>
    rw [byteCount_cons] at h ⊢
    have := ih (by omega)
    omega
  | case3 limit c rest hfits =>
    have := c.utf8Size_le_four
    rw [byteCount_nil]
    omega

/-! ## The search -/

theorem isValid_iff_isBoundary {s : String} {n : Nat} :
    String.Pos.Raw.isValid s ⟨n⟩ = true ↔ IsBoundary s.toList n := by
  rw [String.Pos.Raw.isValid_eq_true_iff, ← String.ofList_toList (s := s), String.Pos.Raw.isValid_ofList,
    String.toList_ofList]
  constructor
  · rintro ⟨i, hi⟩
    exact ⟨_, _, List.take_append_drop i s.toList, by rw [← utf8ByteSize_ofList, ← hi]⟩
  · rintro ⟨first, rest, hs, hcount⟩
    exact ⟨first.length, by rw [utf8ByteSize_ofList, ← hs, List.take_left, hcount]⟩

/-- Whether a search backwards from `n` bytes passes that many places inside characters and then stands at a boundary. -/
structure StopsAfter (s : String) (n steps : Nat) : Prop where
  steps_le : steps ≤ n
  passed : ∀ k < steps, String.Pos.Raw.isValid s ⟨n - k⟩ = false
  stops : String.Pos.Raw.isValid s ⟨n - steps⟩ = true

theorem StopsAfter.boundaryFrom_eq {s : String} {n steps : Nat} (h : StopsAfter s n steps) :
    boundaryFrom s n = n - steps := by
  induction n generalizing steps with
  | zero => exact (Nat.zero_sub steps).symm
  | succ n ih =>
    cases steps with
    | zero => exact if_pos h.stops
    | succ steps =>
      have hinside : String.Pos.Raw.isValid s ⟨n + 1⟩ = false := h.passed 0 (Nat.succ_pos steps)
      rw [boundaryFrom, if_neg (by simp [hinside]), Nat.succ_sub_succ]
      refine ih ⟨Nat.le_of_succ_le_succ h.steps_le, fun k hk => ?_, ?_⟩
      · simpa using h.passed (k + 1) (Nat.succ_lt_succ hk)
      · simpa using h.stops

/-- The search in a text that goes on after the limit stops where the longest beginning ends, at most three places back. -/
theorem exists_stopsAfter {limit : Nat} {s : String} (h : limit < s.utf8ByteSize) :
    ∃ steps ≤ 3, StopsAfter s limit steps ∧ limit - steps = byteCount (clip limit s.toList) := by
  have hfits := byteCount_clip_le limit s.toList
  have hnear := limit_lt_clip (h.trans_eq (byteCount_toList s).symm)
  obtain ⟨rest, hrest⟩ := clip_isPrefix limit s.toList
  refine ⟨limit - byteCount (clip limit s.toList), by omega, ⟨by omega, fun k hk => ?_, ?_⟩, by omega⟩
  · refine Bool.eq_false_iff.mpr fun hvalid => ?_
    have hle := (isValid_iff_isBoundary.mp hvalid).le_clip (Nat.sub_le limit k)
    omega
  · exact isValid_iff_isBoundary.mpr ⟨_, rest, hrest, by omega⟩

/-- The bytes before the end of a beginning are that beginning. -/
theorem extract_of_prefix {first rest : List Char} {s : String} (h : first ++ rest = s.toList) :
    String.Pos.Raw.extract s 0 ⟨byteCount first⟩ = String.ofList first := by
  have hextract := String.extract_of_valid [] first rest
  rw [← String.utf8ByteSize_ofList first, utf8ByteSize_ofList, String.utf8Len_nil, Nat.zero_add, List.nil_append, h,
    String.ofList_toList] at hextract
  exact hextract

end Text

namespace Log

/-- What is kept of a message that is too long. -/
theorem bounded_of_lt {message : String} (h : messageLimit < message.utf8ByteSize) :
    bounded message = String.ofList (Text.clip messageLimit message.toList) ++ "..." := by
  obtain ⟨steps, -, hstops, hplace⟩ := Text.exists_stopsAfter h
  obtain ⟨rest, hrest⟩ := Text.clip_isPrefix messageLimit message.toList
  rw [bounded, if_neg (Nat.not_le.mpr h), hstops.boundaryFrom_eq, hplace, Text.extract_of_prefix hrest]

/-- An event keeps its message as it is if it takes at most the limit. Of any other message it keeps the longest beginning of
whole characters within the limit, and three dots; the search for the end of that beginning passes at most three places. -/
theorem message_make (level : Level) (code message : String) :
    if message.utf8ByteSize ≤ messageLimit then (Event.make level code message).message = message
    else ∃ kept steps, Text.IsLongestWithin messageLimit kept message.toList ∧
      (Event.make level code message).message = String.ofList kept ++ "..." ∧
      Text.StopsAfter message messageLimit steps ∧ steps ≤ 3 ∧
      Text.boundaryFrom message messageLimit = messageLimit - steps ∧
      messageLimit ≤ (Event.make level code message).message.utf8ByteSize ∧
      (Event.make level code message).message.utf8ByteSize ≤ messageLimit + 3 := by
  split
  · next hshort => exact if_pos hshort
  · next hlong =>
    have hlong := Nat.lt_of_not_le hlong
    obtain ⟨steps, hsteps, hstops, hplace⟩ := Text.exists_stopsAfter hlong
    have hmessage : (Event.make level code message).message =
        String.ofList (Text.clip messageLimit message.toList) ++ "..." := bounded_of_lt hlong
    have hsize : (Event.make level code message).message.utf8ByteSize = messageLimit - steps + 3 := by
      rw [hmessage, String.utf8ByteSize_append, Text.utf8ByteSize_ofList, ← hplace]
      rfl
    have hle := hstops.steps_le
    exact ⟨_, steps, Text.isLongestWithin_clip _ _, hmessage, hstops, hsteps, hstops.boundaryFrom_eq, by omega, by omega⟩

/-- After one character of one byte and 1023 of four, the limit falls before the last byte of the next character, and the
search passes three places. -/
theorem message_make_fourBytes :
    ∃ message kept : String, message.utf8ByteSize = messageLimit + 5 ∧ kept.utf8ByteSize = messageLimit - 3 ∧
      (Event.make .info "I000" message).message = kept ++ "..." ∧ Text.StopsAfter message messageLimit 3 := by
  obtain ⟨message, hmessage⟩ : ∃ message : String, message.toList = 'a' :: List.replicate 1025 '😀' :=
    ⟨String.ofList _, String.toList_ofList⟩
  have hsize : message.utf8ByteSize = messageLimit + 5 := by
    rw [← Text.byteCount_toList, hmessage]
    decide +kernel
  have hclip : Text.byteCount (Text.clip messageLimit message.toList) = messageLimit - 3 := by
    rw [hmessage]
    decide +kernel
  have h := message_make .info "I000" message
  rw [if_neg (by omega)] at h
  obtain ⟨kept, steps, hkept, hevent, hstops, hsteps, -⟩ := h
  rw [hkept.eq_clip] at hevent
  obtain rfl : steps = 3 := by
    have hle := (Text.isValid_iff_isBoundary.mp hstops.stops).le_clip (Nat.sub_le messageLimit steps)
    have hlimit : messageLimit = 4096 := rfl
    omega
  exact ⟨message, _, hsize, by rw [Text.utf8ByteSize_ofList, hclip], hevent, hstops⟩

end Log

end Lexeme
