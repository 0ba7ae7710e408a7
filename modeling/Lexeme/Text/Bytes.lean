/-!
# Texts in bytes

A text takes a number of bytes in UTF-8, and a number of bytes says where a text is cut. The cut gives two texts only if
that place is a boundary: it lies between two characters, or at one of the ends. Anywhere else there is no cut.
-/

namespace Lexeme.Text

/-- The number of bytes of a text. -/
def byteCount : List Char → Nat
  | [] => 0
  | c :: s => c.utf8Size + byteCount s

@[simp] theorem byteCount_nil : byteCount [] = 0 := rfl

@[simp] theorem byteCount_cons (c : Char) (s : List Char) : byteCount (c :: s) = c.utf8Size + byteCount s := rfl

@[simp] theorem byteCount_append (s t : List Char) : byteCount (s ++ t) = byteCount s + byteCount t := by
  induction s with
  | nil => exact (Nat.zero_add _).symm
  | cons c s ih => rw [List.cons_append, byteCount_cons, byteCount_cons, ih, Nat.add_assoc]

theorem byteCount_pos {s : List Char} (h : s ≠ []) : 0 < byteCount s := by
  obtain ⟨c, rest, rfl⟩ := List.exists_cons_of_ne_nil h
  have := c.utf8Size_pos
  rw [byteCount_cons]
  omega

/-- The bytes of a text. -/
def bytes (s : List Char) : List UInt8 := s.flatMap String.utf8EncodeChar

/-- Cuts a text after its first `n` bytes, if these are whole characters. -/
def cutAt? : Nat → List Char → Option (List Char × List Char)
  | 0, s => some ([], s)
  | _ + 1, [] => none
  | n + 1, c :: s =>
    if c.utf8Size ≤ n + 1 then (cutAt? (n + 1 - c.utf8Size) s).map fun (first, rest) => (c :: first, rest) else none

/-- The first `n` bytes of a text. -/
def firstBytes? (n : Nat) (s : List Char) : Option (List Char) := (cutAt? n s).map Prod.fst

/-- What comes after the first `n` bytes of a text. -/
def afterBytes? (n : Nat) (s : List Char) : Option (List Char) := (cutAt? n s).map Prod.snd

/-- The place of the first character that `p` accepts, in bytes. -/
def find? (p : Char → Bool) : List Char → Option Nat
  | [] => none
  | c :: s => if p c then some 0 else (find? p s).map (c.utf8Size + ·)

/-- Whether the place after `n` bytes lies between two characters of a text, or at one of its ends. -/
def IsBoundary (s : List Char) (n : Nat) : Prop := ∃ first rest, first ++ rest = s ∧ byteCount first = n

theorem isBoundary_append (s t : List Char) : IsBoundary (s ++ t) (byteCount s) := ⟨s, t, rfl, rfl⟩

/-- No boundary lies behind the text. -/
theorem IsBoundary.le {s : List Char} {n : Nat} (h : IsBoundary s n) : n ≤ byteCount s := by
  obtain ⟨first, rest, rfl, rfl⟩ := h
  simp

/-- A text is cut exactly at its boundaries. -/
theorem cutAt?_eq_some_iff {n : Nat} {s first rest : List Char} :
    cutAt? n s = some (first, rest) ↔ first ++ rest = s ∧ byteCount first = n := by
  fun_induction cutAt? n s generalizing first with
  | case1 s =>
    constructor
    · rintro ⟨rfl, rfl⟩
      exact ⟨rfl, rfl⟩
    · rintro ⟨rfl, h⟩
      cases first with
      | nil => rfl
      | cons c first => exact absurd h (Nat.ne_of_gt (byteCount_pos (List.cons_ne_nil c first)))
  | case2 n =>
    refine iff_of_false nofun ?_
    rintro ⟨hnil, h⟩
    obtain ⟨rfl, -⟩ := List.append_eq_nil_iff.mp hnil
    cases h
  | case3 n c s hfits ih =>
    rw [Option.map_eq_some_iff]
    constructor
    · rintro ⟨⟨inner, rest⟩, hcut, heq⟩
      obtain ⟨rfl, rfl⟩ := Prod.mk.inj heq
      obtain ⟨rfl, hcount⟩ := ih.mp hcut
      exact ⟨rfl, by rw [byteCount_cons]; omega⟩
    · rintro ⟨hs, hcount⟩
      cases first with
      | nil => cases hcount
      | cons d inner =>
        obtain ⟨rfl, hinner⟩ := List.cons.inj hs
        rw [byteCount_cons] at hcount
        exact ⟨(inner, rest), ih.mpr ⟨hinner, by omega⟩, rfl⟩
  | case4 n c s hfits =>
    refine iff_of_false nofun ?_
    rintro ⟨hs, hcount⟩
    cases first with
    | nil => cases hcount
    | cons d inner =>
      obtain ⟨rfl, -⟩ := List.cons.inj hs
      rw [byteCount_cons] at hcount
      omega

theorem firstBytes?_eq_some_iff {n : Nat} {s first : List Char} :
    firstBytes? n s = some first ↔ ∃ rest, first ++ rest = s ∧ byteCount first = n := by
  simp [firstBytes?, cutAt?_eq_some_iff]

theorem afterBytes?_eq_some_iff {n : Nat} {s rest : List Char} :
    afterBytes? n s = some rest ↔ ∃ first, first ++ rest = s ∧ byteCount first = n := by
  simp [afterBytes?, cutAt?_eq_some_iff]

theorem firstBytes?_append (s t : List Char) : firstBytes? (byteCount s) (s ++ t) = some s :=
  firstBytes?_eq_some_iff.mpr ⟨t, rfl, rfl⟩

theorem afterBytes?_append (s t : List Char) : afterBytes? (byteCount s) (s ++ t) = some t :=
  afterBytes?_eq_some_iff.mpr ⟨s, rfl, rfl⟩

end Lexeme.Text
