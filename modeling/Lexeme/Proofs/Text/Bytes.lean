import Lexeme.Text.Bytes
import Mathlib.Data.String.Basic

/-!
# Looking at the bytes of a text

A character below 128 is one byte, and all other characters begin with a byte from 128 on. So bytes can stand for characters
wherever only characters below 128 are looked for (`IsBytewise`): the first byte that is not accepted is the first byte of
the first character that is not accepted (`findIdx_bytes`).
-/

namespace Lexeme.Text

/-! ## The number of bytes -/

theorem utf8ByteSize_ofList (s : List Char) : (String.ofList s).utf8ByteSize = byteCount s := by
  rw [String.utf8ByteSize_ofList]
  induction s with
  | nil => rfl
  | cons c s ih => rw [String.utf8Len_cons, byteCount_cons, ih, Nat.add_comm]

theorem byteCount_toList (s : String) : byteCount s.toList = s.utf8ByteSize := by
  rw [← utf8ByteSize_ofList, String.ofList_toList]

theorem length_le_byteCount (s : List Char) : s.length ≤ byteCount s := by
  induction s with
  | nil => exact Nat.zero_le _
  | cons c s ih =>
    have := c.utf8Size_pos
    rw [List.length_cons, byteCount_cons]
    omega

/-! ## Characters as bytes -/

theorem bytes_cons (c : Char) (s : List Char) : bytes (c :: s) = String.utf8EncodeChar c ++ bytes s := rfl

theorem length_bytes (s : List Char) : (bytes s).length = byteCount s := by
  induction s with
  | nil => rfl
  | cons c s ih => rw [bytes_cons, List.length_append, ih, String.length_utf8EncodeChar, byteCount_cons]

theorem utf8Size_eq_one {c : Char} (h : c.toNat < 128) : c.utf8Size = 1 :=
  Char.utf8Size_eq_one_iff.mpr (UInt32.le_iff_toNat_le.mpr (Nat.le_of_lt_succ h))

theorem utf8EncodeChar_of_lt {c : Char} (h : c.toNat < 128) : String.utf8EncodeChar c = [c.toUInt8] :=
  String.utf8EncodeChar_eq_singleton (utf8Size_eq_one h)

theorem exists_utf8EncodeChar_of_le {c : Char} (h : 128 ≤ c.toNat) :
    ∃ first rest, String.utf8EncodeChar c = first :: rest ∧ 128 ≤ first.toNat := by
  have hval : ¬ c.val.toNat ≤ 127 := by
    have : c.val.toNat = c.toNat := rfl
    omega
  have hfirst (n : Nat) (hn : 128 ≤ n % 256) : 128 ≤ (UInt8.ofNat n).toNat := by simpa using hn
  unfold String.utf8EncodeChar
  dsimp only
  rw [if_neg hval]
  split
  · exact ⟨_, _, rfl, hfirst _ (by omega)⟩
  · split
    · exact ⟨_, _, rfl, hfirst _ (by omega)⟩
    · exact ⟨_, _, rfl, hfirst _ (by omega)⟩

theorem exists_bytes_eq_cons (c : Char) (s : List Char) : ∃ b bs, bytes (c :: s) = b :: bs := by
  apply List.exists_cons_of_ne_nil
  apply List.ne_nil_of_length_pos
  rw [length_bytes]
  exact byteCount_pos (List.cons_ne_nil c s)

theorem toNat_toUInt8 {c : Char} (h : c.toNat < 128) : c.toUInt8.toNat = c.toNat := by
  have : c.toUInt8.toNat = c.toNat % 256 := rfl
  omega

theorem toUInt8_inj {c d : Char} (hc : c.toNat < 128) (hd : d.toNat < 128) : c.toUInt8 = d.toUInt8 ↔ c = d := by
  rw [← UInt8.toNat_inj, toNat_toUInt8 hc, toNat_toUInt8 hd, Char.toNat_inj]

/-! ## Bytes that stand for characters -/

/-- Whether bytes are accepted where characters are, which are all below 128. -/
structure IsBytewise (accept : UInt8 → Bool) (p : Char → Bool) : Prop where
  toNat_lt : ∀ b, accept b = true → b.toNat < 128
  char_lt : ∀ c, p c = true → c.toNat < 128
  eq : ∀ c : Char, c.toNat < 128 → accept c.toUInt8 = p c

namespace IsBytewise

variable {accept accept' : UInt8 → Bool} {p p' : Char → Bool}

/-- Bytes below 128 stand for the characters that they are. -/
theorem of_lt (h : ∀ b, accept b = true → b.toNat < 128) :
    IsBytewise accept fun c => decide (c.toNat < 128) && accept c.toUInt8 where
  toNat_lt := h
  char_lt _ hc := of_decide_eq_true (Bool.and_eq_true_iff.mp hc).1
  eq c hc := by rw [decide_eq_true hc, Bool.true_and]

theorem or (h : IsBytewise accept p) (h' : IsBytewise accept' p') :
    IsBytewise (fun b => accept b || accept' b) fun c => p c || p' c where
  toNat_lt b hb := (Bool.or_eq_true_iff.mp hb).elim (h.toNat_lt b) (h'.toNat_lt b)
  char_lt c hc := (Bool.or_eq_true_iff.mp hc).elim (h.char_lt c) (h'.char_lt c)
  eq c hc := by rw [h.eq c hc, h'.eq c hc]

theorem single {d : Char} (hd : d.toNat < 128) : IsBytewise (fun b => b = d.toUInt8) fun c => c = d where
  toNat_lt b hb := by rwa [of_decide_eq_true hb, toNat_toUInt8 hd]
  char_lt c hc := by rwa [of_decide_eq_true hc]
  eq c hc := decide_eq_decide.mpr (toUInt8_inj hc hd)

theorem between {first last : Char} (hlast : last.toNat < 128) (hle : first ≤ last) :
    IsBytewise (fun b => first.toUInt8 ≤ b && b ≤ last.toUInt8) fun c => first ≤ c && c ≤ last where
  toNat_lt b hb := by
    have hb := UInt8.le_iff_toNat_le.mp (of_decide_eq_true (Bool.and_eq_true_iff.mp hb).2)
    rw [toNat_toUInt8 hlast] at hb
    omega
  char_lt c hc := by
    have hc : c.toNat ≤ last.toNat := of_decide_eq_true (Bool.and_eq_true_iff.mp hc).2
    omega
  eq c hc := by
    have hfirst : first.toNat < 128 := Nat.lt_of_le_of_lt hle hlast
    have hiff {a b : Char} (ha : a.toNat < 128) (hb : b.toNat < 128) : a.toUInt8 ≤ b.toUInt8 ↔ a ≤ b := by
      rw [UInt8.le_iff_toNat_le, toNat_toUInt8 ha, toNat_toUInt8 hb]
      rfl
    rw [decide_eq_decide.mpr (hiff hfirst hc), decide_eq_decide.mpr (hiff hc hlast)]

end IsBytewise

/-- The bytes that are accepted at the beginning of a text are those of the characters that are accepted. -/
theorem findIdx_bytes {accept : UInt8 → Bool} {p : Char → Bool} (h : IsBytewise accept p) (s : List Char) :
    (bytes s).findIdx (fun b => !accept b) = byteCount (s.takeWhile p) := by
  induction s with
  | nil => rfl
  | cons c s ih =>
    rw [bytes_cons]
    rcases Nat.lt_or_ge c.toNat 128 with hc | hc
    · rw [utf8EncodeChar_of_lt hc, List.singleton_append, List.findIdx_cons, h.eq c hc, ih]
      cases hp : p c with
      | false => simp [hp]
      | true => simp [hp, utf8Size_eq_one hc, Nat.add_comm]
    · obtain ⟨first, rest, hencode, hfirst⟩ := exists_utf8EncodeChar_of_le hc
      have haccept : accept first = false := eq_false_of_ne_true fun h' => absurd (h.toNat_lt first h') (by omega)
      have hp : p c = false := eq_false_of_ne_true fun h' => absurd (h.char_lt c h') (by omega)
      simp [hencode, haccept, hp, List.findIdx_cons]

/-! ## Characters that are looked for -/

/-- What comes before the first character that is not accepted is what is accepted. -/
theorem find?_getD (p : Char → Bool) (s : List Char) : (find? (!p ·) s).getD (byteCount s) = byteCount (s.takeWhile p) := by
  induction s with
  | nil => rfl
  | cons c s ih =>
    cases hp : p c with
    | false => simp [find?, hp]
    | true =>
      rw [List.takeWhile_cons_of_pos hp, byteCount_cons, byteCount_cons, ← ih]
      cases hfind : find? (!p ·) s with
      | none => simp [find?, hp, hfind]
      | some n => simp [find?, hp, hfind]

end Lexeme.Text
