import Lexeme.Proofs.Json.Layout

/-!
# How strings and numbers are written

The body of a string consists of characters that need no escape, of escapes, and of code units to base sixteen (`IsBody`).
A number is a sign, digits without a leading zero, and maybe a fraction and an exponent (`WritesNumber`). The readers take
just these texts off the beginning of a list: a body up to its quotation mark (`bodyFrom?_eq_some_iff`), and a number up
to what cannot belong to it (`number?_of_writes`, `exists_writesNumber`).
-/

namespace Lexeme.Json

/-! ## Strings -/

/-- Whether a character is a digit to base sixteen. -/
def IsHexDigit (c : Char) : Prop := ('0' ≤ c ∧ c ≤ '9') ∨ ('a' ≤ c ∧ c ≤ 'f') ∨ ('A' ≤ c ∧ c ≤ 'F')

/-- The bodies of strings, between the quotation marks. -/
inductive IsBody : List Char → Prop
  | nil : IsBody []
  | char {c : Char} {body : List Char} (hquote : c ≠ '"') (hbackslash : c ≠ '\\') (hc : 32 ≤ c.toNat) (h : IsBody body) :
      IsBody (c :: body)
  | escape {c : Char} {body : List Char} (hc : c ∈ ['"', '\\', '/', 'b', 'f', 'n', 'r', 't']) (h : IsBody body) :
      IsBody ('\\' :: c :: body)
  | unit {a b c d : Char} {body : List Char} (ha : IsHexDigit a) (hb : IsHexDigit b) (hc : IsHexDigit c)
      (hd : IsHexDigit d) (h : IsBody body) : IsBody ('\\' :: 'u' :: a :: b :: c :: d :: body)

theorem isSome_hexValue?_iff {c : Char} : (hexValue? c).isSome = true ↔ IsHexDigit c := by
  unfold hexValue? IsHexDigit
  split
  · simp [*]
  split
  · simp [*]
  split
  · simp [*]
  · simp [*]

theorem isSome_hexValue4?_iff {a b c d : Char} :
    (hexValue4? a b c d).isSome = true ↔ IsHexDigit a ∧ IsHexDigit b ∧ IsHexDigit c ∧ IsHexDigit d := by
  simp only [← isSome_hexValue?_iff, hexValue4?, Option.isSome_iff_exists]
  cases hexValue? a <;> cases hexValue? b <;> cases hexValue? c <;> cases hexValue? d <;> simp

theorem isSome_plainEscape?_iff {c : Char} :
    (plainEscape? c).isSome = true ↔ c ∈ ['"', '\\', '/', 'b', 'f', 'n', 'r', 't'] := by
  unfold plainEscape?
  split <;> simp_all

/-- A body is read up to its quotation mark. -/
theorem bodyFrom?_eq_some_iff {done s body rest : List Char} :
    bodyFrom? done s = some (body, rest) ↔ ∃ w, s = w ++ '"' :: rest ∧ IsBody w ∧ body = done.reverse ++ w := by
  constructor
  · intro h
    fun_induction bodyFrom? done s with
    | case1 => cases h
    | case2 done t =>
      cases h
      exact ⟨[], rfl, .nil, by simp⟩
    | case3 done a b c d t hhex ih =>
      obtain ⟨w, rfl, hw, rfl⟩ := ih h
      obtain ⟨ha, hb, hc, hd⟩ := isSome_hexValue4?_iff.mp hhex
      exact ⟨_, rfl, .unit ha hb hc hd hw, by simp⟩
    | case4 => cases h
    | case5 done c t _ hescape ih =>
      obtain ⟨w, rfl, hw, rfl⟩ := ih h
      exact ⟨_, rfl, .escape (isSome_plainEscape?_iff.mp hescape) hw, by simp⟩
    | case6 => cases h
    | case7 => cases h
    | case8 done c t hquote _ _ hc ih =>
      obtain ⟨w, rfl, hw, rfl⟩ := ih h
      obtain ⟨hcontrol, hbackslash⟩ := not_or.mp hc
      exact ⟨_, rfl, .char hquote hbackslash (Nat.le_of_not_lt hcontrol) hw, by simp⟩
  · rintro ⟨w, rfl, hw, rfl⟩
    induction hw generalizing done with
    | nil => simp [bodyFrom?]
    | char hquote hbackslash hc _ ih =>
      rw [List.cons_append, bodyFrom?_cons hquote hbackslash hc, ih]
      simp
    | @escape c body hc _ ih =>
      have hread : bodyFrom? done ('\\' :: c :: (body ++ '"' :: rest)) = bodyFrom? (c :: '\\' :: done) (body ++ '"' :: rest) := by
        have hu : c ≠ 'u' := by
          rintro rfl
          revert hc
          decide
        rw [bodyFrom?]
        · exact if_pos (isSome_plainEscape?_iff.mpr hc)
        · exact fun _ _ _ _ _ h => absurd h hu
      rw [List.cons_append, List.cons_append, hread, ih]
      simp
    | unit ha hb hc hd _ ih =>
      simp only [List.cons_append]
      rw [bodyFrom?, if_pos (isSome_hexValue4?_iff.mpr ⟨ha, hb, hc, hd⟩), ih]
      simp

/-! ## Digits -/

/-- Whether a text consists of decimal digits, at least one. -/
def IsDigits (s : List Char) : Prop := s ≠ [] ∧ ∀ c ∈ s, c.isDigit = true

/-- Whether no digit stands at the beginning. -/
def NoDigit (s : List Char) : Prop := ∀ c ∈ s.head?, c.isDigit = false

/-- All digits at the beginning are split off, and nothing else. -/
theorem spanDigits_eq_iff {s digits rest : List Char} :
    spanDigits s = (digits, rest) ↔ s = digits ++ rest ∧ (∀ c ∈ digits, c.isDigit = true) ∧ NoDigit rest := by
  unfold spanDigits NoDigit
  constructor
  · intro h
    obtain ⟨rfl, rfl⟩ := Prod.mk.inj h
    refine ⟨List.takeWhile_append_dropWhile.symm, fun c hc => List.all_eq_true.mp List.all_takeWhile c hc, ?_⟩
    intro c hc
    simpa [Option.mem_def.mp hc] using List.head?_dropWhile_not Char.isDigit s
  · rintro ⟨rfl, hdigits, hrest⟩
    rw [List.takeWhile_append_of_pos hdigits, List.dropWhile_append_of_pos hdigits]
    cases rest with
    | nil => simp
    | cons c rest => simp [hrest c rfl]

/-! ## Numbers -/

/-- Whether a text is a whole number without a leading zero. -/
def IsWhole (s : List Char) : Prop := IsDigits s ∧ (s.head? = some '0' → s = ['0'])

/-- How the digits after the point are written. -/
inductive WritesFraction : List Char → List Char → Prop
  | none : WritesFraction [] []
  | digits {digits : List Char} (h : IsDigits digits) : WritesFraction digits ('.' :: digits)

/-- How a power is written: digits, maybe with a sign. -/
inductive WritesPower : Int → List Char → Prop
  | plain {digits : List Char} (h : IsDigits digits) : WritesPower (decimalValue digits) digits
  | plus {digits : List Char} (h : IsDigits digits) : WritesPower (decimalValue digits) ('+' :: digits)
  | minus {digits : List Char} (h : IsDigits digits) : WritesPower (-decimalValue digits) ('-' :: digits)

/-- How an exponent is written. -/
inductive WritesExponent : Int → List Char → Prop
  | none : WritesExponent 0 []
  | power {exponent : Int} {e : Char} {w : List Char} (he : e = 'e' ∨ e = 'E') (h : WritesPower exponent w) :
      WritesExponent exponent (e :: w)

/-- How a sign is written. -/
def sign (negative : Bool) : List Char := if negative then ['-'] else []

/-- How a number is written. -/
inductive WritesNumber : Number → List Char → Prop
  | mk (negative : Bool) {whole fraction places power : List Char} {exponent : Int} (hwhole : IsWhole whole)
      (hfraction : WritesFraction fraction places) (hexponent : WritesExponent exponent power) :
      WritesNumber ⟨negative, whole, fraction, exponent⟩ (sign negative ++ (whole ++ (places ++ power)))

/-- Whether nothing stands at the beginning that a number can go on with. -/
def Ends (s : List Char) : Prop := ∀ c ∈ s.head?, c.isDigit = false ∧ c ∉ ['.', 'e', 'E']

theorem Ends.noDigit {s : List Char} (h : Ends s) : NoDigit s := fun c hc => (h c hc).1

theorem integerPart?_eq_some_iff {s whole rest : List Char} :
    integerPart? s = some (whole, rest) ↔ s = whole ++ rest ∧ IsWhole whole ∧ NoDigit rest := by
  obtain ⟨digits, after, hspan⟩ : ∃ digits after, spanDigits s = (digits, after) := ⟨_, _, rfl⟩
  have hs := spanDigits_eq_iff.mp hspan
  unfold integerPart? IsWhole IsDigits
  rw [hspan]
  constructor
  · intro h
    simp only at h
    split at h
    · cases h
    · next hzero =>
      cases h
      refine ⟨hs.1, ⟨⟨fun h => hzero (.inl h), hs.2.1⟩, fun h => ?_⟩, hs.2.2⟩
      by_contra hne
      exact hzero (.inr ⟨h, hne⟩)
  · rintro ⟨h, ⟨⟨hne, hdigits⟩, hzero⟩, hrest⟩
    cases hspan.symm.trans (spanDigits_eq_iff.mpr ⟨h, hdigits, hrest⟩)
    exact if_neg fun h => h.elim hne fun h => h.2 (hzero h.1)

theorem fractionPart?_of_writes {fraction w rest : List Char} (h : WritesFraction fraction w) (hdigit : NoDigit rest)
    (hpoint : rest.head? ≠ some '.') : fractionPart? (w ++ rest) = some (fraction, rest) := by
  cases h with
  | none =>
    unfold fractionPart?
    split
    · next heq =>
      rw [List.nil_append] at heq
      exact absurd (by rw [heq]; rfl) hpoint
    · rfl
  | digits h =>
    simp only [fractionPart?, List.cons_append, spanDigits_eq_iff.mpr ⟨rfl, h.2, hdigit⟩]
    exact if_neg h.1

theorem exists_writesFraction {s fraction rest : List Char} (h : fractionPart? s = some (fraction, rest)) :
    ∃ w, s = w ++ rest ∧ WritesFraction fraction w := by
  unfold fractionPart? at h
  split at h
  · next t =>
    obtain ⟨digits, after, hspan⟩ : ∃ digits after, spanDigits t = (digits, after) := ⟨_, _, rfl⟩
    obtain ⟨rfl, hdigits, -⟩ := spanDigits_eq_iff.mp hspan
    simp only [hspan] at h
    split at h
    · cases h
    · next hne =>
      cases h
      exact ⟨_, rfl, .digits ⟨hne, hdigits⟩⟩
  · cases h
    exact ⟨[], rfl, .none⟩

theorem exponentDigits?_of_writes {exponent : Int} {w rest : List Char} (h : WritesPower exponent w)
    (hrest : NoDigit rest) : exponentDigits? (w ++ rest) = some (exponent, rest) := by
  cases h with
  | @plain digits h =>
    have hspan := spanDigits_eq_iff.mpr ⟨rfl, h.2, hrest⟩
    obtain ⟨c, tail, rfl⟩ := List.exists_cons_of_ne_nil h.1
    have hc : c.isDigit = true := h.2 c List.mem_cons_self
    have hminus : c ≠ '-' := by
      rintro rfl
      cases hc
    have hplus : c ≠ '+' := by
      rintro rfl
      cases hc
    rw [List.cons_append] at hspan ⊢
    unfold exponentDigits?
    split
    next heq =>
    split at heq
    · next h => exact absurd (List.cons.inj h).1 hminus
    · next h => exact absurd (List.cons.inj h).1 hplus
    · cases heq
      rw [hspan]
      rfl
  | plus h =>
    simp only [exponentDigits?, List.cons_append, spanDigits_eq_iff.mpr ⟨rfl, h.2, hrest⟩]
    exact if_neg h.1
  | minus h =>
    simp only [exponentDigits?, List.cons_append, spanDigits_eq_iff.mpr ⟨rfl, h.2, hrest⟩]
    exact if_neg h.1

theorem exists_writesPower {exponent : Int} {s rest : List Char} (h : exponentDigits? s = some (exponent, rest)) :
    ∃ w, s = w ++ rest ∧ WritesPower exponent w := by
  unfold exponentDigits? at h
  split at h
  next negative t heq =>
  obtain ⟨digits, after, hspan⟩ : ∃ digits after, spanDigits t = (digits, after) := ⟨_, _, rfl⟩
  obtain ⟨rfl, hdigits, -⟩ := spanDigits_eq_iff.mp hspan
  rw [hspan] at h
  simp only at h
  split at h
  · cases h
  next hne =>
  split at heq
  · cases heq
    cases h
    exact ⟨_, rfl, .minus ⟨hne, hdigits⟩⟩
  · cases heq
    cases h
    exact ⟨_, rfl, .plus ⟨hne, hdigits⟩⟩
  · cases heq
    cases h
    exact ⟨_, rfl, .plain ⟨hne, hdigits⟩⟩

theorem exponentPart?_of_writes {exponent : Int} {w rest : List Char} (h : WritesExponent exponent w)
    (hrest : Ends rest) : exponentPart? (w ++ rest) = some (exponent, rest) := by
  cases h with
  | none =>
    rw [List.nil_append]
    unfold exponentPart?
    split
    · have he := (hrest 'e' rfl).2
      simp at he
    · have he := (hrest 'E' rfl).2
      simp at he
    · rfl
  | power he h =>
    obtain rfl | rfl := he
    · exact exponentDigits?_of_writes h hrest.noDigit
    · exact exponentDigits?_of_writes h hrest.noDigit

theorem exists_writesExponent {exponent : Int} {s rest : List Char} (h : exponentPart? s = some (exponent, rest)) :
    ∃ w, s = w ++ rest ∧ WritesExponent exponent w := by
  unfold exponentPart? at h
  split at h
  · obtain ⟨w, rfl, hw⟩ := exists_writesPower h
    exact ⟨_, rfl, .power (.inl rfl) hw⟩
  · obtain ⟨w, rfl, hw⟩ := exists_writesPower h
    exact ⟨_, rfl, .power (.inr rfl) hw⟩
  · cases h
    exact ⟨[], rfl, .none⟩

theorem IsWhole.head?_append_ne {whole : List Char} (h : IsWhole whole) (rest : List Char) :
    (whole ++ rest).head? ≠ some '-' := by
  obtain ⟨c, tail, rfl⟩ := List.exists_cons_of_ne_nil h.1.1
  have hc : c.isDigit = true := h.1.2 c List.mem_cons_self
  rintro h
  cases h
  cases hc

/-- What follows the digits before the point does not begin with a digit. -/
theorem noDigit_places {fraction places power rest : List Char} {exponent : Int} (hfraction : WritesFraction fraction places)
    (hexponent : WritesExponent exponent power) (hrest : Ends rest) :
    NoDigit (places ++ (power ++ rest)) ∧ NoDigit (power ++ rest) ∧ (power ++ rest).head? ≠ some '.' := by
  have hpower : NoDigit (power ++ rest) ∧ (power ++ rest).head? ≠ some '.' := by
    cases hexponent with
    | none => exact ⟨hrest.noDigit, fun h => (hrest '.' h).2 (by decide)⟩
    | power he _ =>
      obtain rfl | rfl := he
      · exact ⟨fun c hc => by cases hc; rfl, fun h => by cases h⟩
      · exact ⟨fun c hc => by cases hc; rfl, fun h => by cases h⟩
  refine ⟨?_, hpower⟩
  cases hfraction with
  | none => exact hpower.1
  | digits => exact fun c hc => by cases hc; rfl

/-- A number is read up to what it cannot go on with. -/
theorem number?_of_writes {n : Number} {w rest : List Char} (h : WritesNumber n w) (hrest : Ends rest) :
    number? (w ++ rest) = some (n, rest) := by
  obtain @⟨negative, whole, fraction, places, power, exponent, hwhole, hfraction, hexponent⟩ := h
  obtain ⟨hplaces, hpower, hpoint⟩ := noDigit_places hfraction hexponent hrest
  have hw := integerPart?_eq_some_iff.mpr ⟨rfl, hwhole, hplaces⟩
  have hf := fractionPart?_of_writes hfraction hpower hpoint
  have he := exponentPart?_of_writes hexponent hrest
  simp only [List.append_assoc]
  cases negative with
  | true => simp [number?, sign, hw, hf, he]
  | false =>
    unfold number?
    split
    next t heq =>
    split at heq
    · next h => exact absurd (by rw [← List.nil_append (whole ++ _)]; exact congrArg _ h) (hwhole.head?_append_ne _)
    · cases heq
      simp [sign, hw, hf, he]

/-- What is read as a number is one as it is written. -/
theorem exists_writesNumber {n : Number} {s rest : List Char} (h : number? s = some (n, rest)) :
    ∃ w, s = w ++ rest ∧ WritesNumber n w := by
  unfold number? at h
  split at h
  next negative t heq =>
  simp only [bind, Option.bind_eq_some_iff, pure, Option.some.injEq, Prod.mk.injEq] at h
  obtain ⟨⟨whole, s₁⟩, hw, ⟨fraction, s₂⟩, hf, ⟨exponent, s₃⟩, he, rfl, rfl⟩ := h
  obtain ⟨rfl, hwhole, -⟩ := integerPart?_eq_some_iff.mp hw
  obtain ⟨places, rfl, hfraction⟩ := exists_writesFraction hf
  obtain ⟨power, rfl, hexponent⟩ := exists_writesExponent he
  refine ⟨_, ?_, .mk negative hwhole hfraction hexponent⟩
  split at heq
  · cases heq
    simp [sign]
  · cases heq
    simp [sign]

end Lexeme.Json
