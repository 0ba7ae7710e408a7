import Lexeme.Proofs.Python.Strings
import Lexeme.Proofs.Text.Bytes
import Lexeme.Python.Lengths

/-!
# Lengths are lengths of splits

Every length in bytes is the length of the beginning that the lexer splits off at the same place. So none of the cuts on the
way to it fails, and it ends between two characters itself (`lengthsFit`).

A scanner that steps over bytes could only get inside a character by stepping over the first byte of one. It steps over bytes
that it has seen to be digits, letters or marks, and those are whole characters; all other steps are over characters that it
has compared. For a string the invariant is that the letters, the quotes and what has been read after them are the text up
to where the scanner looks, in bytes as in characters (`closeLength?_eq`).
-/

namespace Lexeme.Python

open Text (byteCount bytes firstBytes? afterBytes? cutAt? IsBoundary IsBytewise cutAt?_eq_some_iff)

variable {s rest mark : List Char} {n : Nat} {c quote : Char}

theorem afterBytes?_of_append (first : List Char) (hs : first ++ rest = s) (hn : byteCount first = n) :
    afterBytes? n s = some rest :=
  Text.afterBytes?_eq_some_iff.mpr ⟨first, hs, hn⟩

/-! ## Runs of characters -/

theorem spanLength_eq (p : Char → Bool) (s : List Char) : spanLength p s = byteCount (spanOf p s).1 := Text.find?_getD p s

theorem utf8Size_of_isLineBreak (h : isLineBreak c = true) : c.utf8Size = 1 := by
  have hc : c = '\n' ∨ c = '\r' := by simpa [isLineBreak] using h
  rcases hc with rfl | rfl <;> rfl

theorem lineBreakLength_eq (h : isLineBreak c = true) (rest : List Char) :
    lineBreakLength (c :: rest) = byteCount (lineBreak (c :: rest)).1 := by
  unfold lineBreak
  split
  · next hcons =>
    obtain ⟨rfl, rfl⟩ := List.cons.inj hcons
    rfl
  · next d t hother hcons =>
    obtain ⟨rfl, rfl⟩ := List.cons.inj hcons
    unfold lineBreakLength
    rw [if_neg, if_pos (by simpa using h), Text.byteCount_cons, utf8Size_of_isLineBreak h]
    · rfl
    · intro hprefix
      obtain ⟨t, ht⟩ := List.isPrefixOf_iff_prefix.mp hprefix
      obtain ⟨rfl, rfl⟩ := List.cons.inj ht
      exact hother t rfl rfl
  · next hnil => cases hnil

theorem lineBreakLength_eq_zero (h : isLineBreak c = false) (rest : List Char) : lineBreakLength (c :: rest) = 0 := by
  unfold lineBreakLength
  rw [if_neg, if_neg (by simpa using h)]
  intro hprefix
  obtain ⟨t, ht⟩ := List.isPrefixOf_iff_prefix.mp hprefix
  obtain ⟨rfl, -⟩ := List.cons.inj ht
  cases h

/-! ## Numbers -/

theorem isBytewise_isByteIn {first last : Char} (hlast : last.toNat < 128) (hle : first ≤ last) :
    IsBytewise (isByteIn first last) fun c => first ≤ c && c ≤ last := .between hlast hle

theorem isBytewise_isDecimalByte : IsBytewise isDecimalByte Char.isDigit := isBytewise_isByteIn (by decide) (by decide)

theorem digitsLength_eq {accept : UInt8 → Bool} {p : Char → Bool} (h : IsBytewise accept p) (s : List Char) :
    digitsLength accept s = byteCount (spanOf (fun c => p c || c = '_') s).1 :=
  Text.findIdx_bytes (h.or (.single (by decide))) s

theorem digitsLength_isDecimalByte (s : List Char) : digitsLength isDecimalByte s = byteCount (spanOf isDecimal s).1 :=
  digitsLength_eq isBytewise_isDecimalByte s

/-- The byte of a letter names a base if the letter does. -/
theorem radixByte?_toUInt8 {letter : Char} (h : letter.toNat < 128) :
    (∃ accept p, radixByte? letter.toUInt8 = some accept ∧ radixDigit? letter = some p ∧ IsBytewise accept p) ∨
      radixByte? letter.toUInt8 = none ∧ radixDigit? letter = none := by
  have hletter (d : Char) (hd : d.toNat < 128) : letter.toUInt8 = d.toUInt8 ↔ letter = d := Text.toUInt8_inj h hd
  simp only [radixByte?, hletter 'x' (by decide), hletter 'X' (by decide), hletter 'o' (by decide), hletter 'O' (by decide),
    hletter 'b' (by decide), hletter 'B' (by decide)]
  split_ifs with hhex hoctal hbinary
  · refine .inl ⟨_, _, rfl, by rcases hhex with rfl | rfl <;> rfl, ?_⟩
    exact (isBytewise_isDecimalByte.or (isBytewise_isByteIn (by decide) (by decide))).or
      (isBytewise_isByteIn (by decide) (by decide))
  · refine .inl ⟨_, _, rfl, by rcases hoctal with rfl | rfl <;> rfl, ?_⟩
    exact isBytewise_isByteIn (by decide) (by decide)
  · refine .inl ⟨_, _, rfl, by rcases hbinary with rfl | rfl <;> rfl, ?_⟩
    exact (IsBytewise.single (by decide)).or (.single (by decide))
  · refine .inr ⟨rfl, ?_⟩
    unfold radixDigit?
    split <;> simp_all

theorem addFraction?_eq {split : Split} (hs : split.1 ++ split.2 = s) :
    addFraction? s (byteCount split.1) = some (byteCount (split.andThen fraction).1) := by
  obtain ⟨first, rest⟩ := split
  rw [addFraction?, afterBytes?_of_append first hs rfl]
  cases rest with
  | nil => simp [Split.andThen, fraction]
  | cons c t =>
    by_cases hpoint : c = '.'
    · subst hpoint
      have hsize : ('.').utf8Size = 1 := rfl
      have hafter : afterBytes? (byteCount first + 1) s = some t :=
        afterBytes?_of_append (first ++ ['.']) (by simpa using hs) (by simp [hsize])
      simp [Split.andThen, fraction, hafter, digitsLength_isDecimalByte, hsize, Nat.add_assoc]
    · simp [Split.andThen, fraction, hpoint]

/-- The digits of an exponent count only if there are any; then the letter and the sign count too. -/
theorem byteCount_exponentDigits (before t : List Char) :
    byteCount (exponentDigits before t).1 =
      if 0 < byteCount (spanOf isDecimal t).1 then byteCount before + byteCount (spanOf isDecimal t).1 else 0 := by
  unfold exponentDigits
  split
  · next rest h => simp [h]
  · next digits rest hdigits h =>
    rw [h, if_pos (Text.byteCount_pos hdigits)]
    simp

/-- The digits of an exponent come after its letter, or after a sign that follows the letter. -/
theorem exists_exponent_eq {e : Char} (he : e = 'e' ∨ e = 'E') (t : List Char) :
    ∃ before u, before ++ u = e :: t ∧ exponent (e :: t) = exponentDigits before u ∧
      byteCount before = 1 + if t.head?.any fun c => c = '+' || c = '-' then 1 else 0 := by
  have hsize : e.utf8Size = 1 := by rcases he with rfl | rfl <;> rfl
  cases t with
  | nil => exact ⟨[e], [], rfl, rfl, by simp [hsize]⟩
  | cons sign u =>
    by_cases hsign : sign = '+' ∨ sign = '-'
    · have hsign_size : sign.utf8Size = 1 := by rcases hsign with rfl | rfl <;> rfl
      exact ⟨[e, sign], u, rfl, by simp [exponent, he, hsign], by simp [hsize, hsign_size, hsign]⟩
    · exact ⟨[e], sign :: u, rfl, by simp [exponent, he, hsign], by simp [hsize, not_or.mp hsign]⟩

theorem addExponent?_eq {split : Split} (hs : split.1 ++ split.2 = s) :
    addExponent? s (byteCount split.1) = some (byteCount (split.andThen exponent).1) := by
  obtain ⟨first, rest⟩ := split
  rw [addExponent?, afterBytes?_of_append first hs rfl]
  cases rest with
  | nil => simp [Split.andThen, exponent]
  | cons e t =>
    by_cases he : e = 'e' ∨ e = 'E'
    · have hletter : afterBytes? 1 (e :: t) = some t :=
        afterBytes?_of_append [e] rfl (by rcases he with rfl | rfl <;> rfl)
      obtain ⟨before, u, hu, hexponent, hbefore⟩ := exists_exponent_eq he t
      have hdigits : afterBytes? (byteCount before) (e :: t) = some u := afterBytes?_of_append before hu rfl
      simp only [Option.bind_eq_bind, Option.bind_some, List.head?_cons, Option.any_some, Bool.or_eq_true, decide_eq_true_eq,
        he, if_true, hletter, ← hbefore, hdigits, digitsLength_isDecimalByte, Split.andThen, hexponent, Text.byteCount_append,
        byteCount_exponentDigits]
      split <;> rfl
    · have hexponent : exponent (e :: t) = ([], e :: t) := by
        cases t with
        | nil => rfl
        | cons sign t => simp [exponent, he]
      simp [Split.andThen, hexponent, not_or.mp he]

theorem addImaginary?_eq {split : Split} (hs : split.1 ++ split.2 = s) :
    addImaginary? s (byteCount split.1) = some (byteCount (split.andThen imaginary).1) := by
  obtain ⟨first, rest⟩ := split
  rw [addImaginary?, afterBytes?_of_append first hs rfl]
  cases rest with
  | nil => simp [Split.andThen, imaginary]
  | cons c t =>
    by_cases hletter : c = 'j' ∨ c = 'J'
    · rcases hletter with rfl | rfl
      · simp [Split.andThen, imaginary]
        rfl
      · simp [Split.andThen, imaginary]
        rfl
    · simp [Split.andThen, imaginary, not_or.mp hletter]

theorem decimalLength?_eq (s : List Char) : decimalLength? s = some (byteCount (decimal s).1) := by
  have hdigits := spanOf_append isDecimal s
  have hfraction := Split.andThen_append hdigits fraction_append
  have hexponent := Split.andThen_append hfraction exponent_append
  rw [decimalLength?, digitsLength_isDecimalByte, addFraction?_eq hdigits]
  exact (congrArg (· >>= addImaginary? s) (addExponent?_eq hfraction)).trans (addImaginary?_eq hexponent)

/-- A character from 128 on names no base, and neither does its first byte. -/
theorem radixDigit?_of_le {letter : Char} (h : 128 ≤ letter.toNat) : radixDigit? letter = none := by
  unfold radixDigit?
  split <;> first | rfl | exact absurd h (by decide)

theorem radixByte?_of_le {b : UInt8} (h : 128 ≤ b.toNat) : radixByte? b = none := by
  have hne (d : Char) (hd : d.toNat < 128) : b ≠ d.toUInt8 := by
    rintro rfl
    rw [Text.toNat_toUInt8 hd] at h
    omega
  simp only [radixByte?, hne 'x' (by decide), hne 'X' (by decide), hne 'o' (by decide), hne 'O' (by decide),
    hne 'b' (by decide), hne 'B' (by decide), or_self, if_false]

theorem radix?_of_ne {b : UInt8} (h : b ≠ '0'.toUInt8) (bs : List UInt8) : radix? (b :: bs) = none := by
  unfold radix?
  split
  · next hcons =>
    obtain ⟨rfl, -⟩ := List.cons.inj hcons
    exact if_neg h
  · rfl

theorem radix?_of_radixByte?_eq_none {b : UInt8} (h : radixByte? b = none) (zero : UInt8) (bs : List UInt8) :
    radix? (zero :: b :: bs) = none := by
  cases bs with
  | nil => rfl
  | cons => simp [radix?, h]

theorem number_of_ne (h : c ≠ '0') (s : List Char) : number (c :: s) = decimal (c :: s) := by
  unfold number
  split
  · next hcons => exact absurd (List.cons.inj hcons).1 h
  · rfl

theorem number_of_radixDigit?_eq_none {letter : Char} (h : radixDigit? letter = none) (t : List Char) :
    number ('0' :: letter :: t) = decimal ('0' :: letter :: t) := by
  cases t with
  | nil => rfl
  | cons next t => simp only [number, h]

/-- Whether the letter of a base is found among the bytes of a text as among its characters, or in neither. -/
inductive FindsRadix (s : List Char) : Prop
  | found {letter : Char} {t : List Char} {accept : UInt8 → Bool} {p : Char → Bool} (hs : s = '0' :: letter :: t)
      (hletter : letter.toNat < 128) (haccept : IsBytewise accept p) (hradix : radix? (bytes s) = some accept)
      (hnumber : (number s).1 = '0' :: letter :: (spanOf (fun c => p c || c = '_') t).1)
  | missing (hradix : radix? (bytes s) = none) (hnumber : number s = decimal s)

theorem findsRadix_letter (letter : Char) (t : List Char) : FindsRadix ('0' :: letter :: t) := by
  have hbytes : bytes ('0' :: letter :: t) = '0'.toUInt8 :: (String.utf8EncodeChar letter ++ bytes t) := by
    rw [Text.bytes_cons, Text.bytes_cons, Text.utf8EncodeChar_of_lt (by decide)]
    rfl
  rcases Nat.lt_or_ge letter.toNat 128 with hletter | hletter
  · rw [Text.utf8EncodeChar_of_lt hletter] at hbytes
    rcases radixByte?_toUInt8 hletter with ⟨accept, p, haccept, hp, hbytewise⟩ | ⟨haccept, hp⟩
    · -- the base counts only if the text goes on
      cases t with
      | nil => exact .missing (by rw [hbytes]; rfl) rfl
      | cons next t =>
        obtain ⟨b, bs, hnext⟩ := Text.exists_bytes_eq_cons next t
        refine .found rfl hletter hbytewise ?_ (by simp only [number, hp])
        rw [hbytes, hnext]
        exact haccept
    · refine .missing ?_ (number_of_radixDigit?_eq_none hp t)
      rw [hbytes]
      exact radix?_of_radixByte?_eq_none haccept _ _
  · obtain ⟨b, bs, hencode, hb⟩ := Text.exists_utf8EncodeChar_of_le hletter
    refine .missing ?_ (number_of_radixDigit?_eq_none (radixDigit?_of_le hletter) t)
    rw [hbytes, hencode]
    exact radix?_of_radixByte?_eq_none (radixByte?_of_le hb) _ _

theorem findsRadix (s : List Char) : FindsRadix s := by
  cases s with
  | nil => exact .missing rfl rfl
  | cons zero t =>
    by_cases hzero : zero = '0'
    · subst hzero
      cases t with
      | nil => exact .missing rfl rfl
      | cons letter t => exact findsRadix_letter letter t
    · refine .missing ?_ (number_of_ne hzero t)
      rcases Nat.lt_or_ge zero.toNat 128 with hlt | hge
      · rw [Text.bytes_cons, Text.utf8EncodeChar_of_lt hlt]
        exact radix?_of_ne (mt (Text.toUInt8_inj hlt (by decide)).mp hzero) _
      · obtain ⟨b, bs, hencode, hb⟩ := Text.exists_utf8EncodeChar_of_le hge
        rw [Text.bytes_cons, hencode]
        apply radix?_of_ne
        rintro rfl
        exact absurd hb (by decide)

theorem numberLength?_eq (s : List Char) : numberLength? s = some (byteCount (number s).1) := by
  unfold numberLength?
  cases findsRadix s with
  | @found letter t accept p hs hletter haccept hradix hnumber =>
    have hzero : ('0').utf8Size = 1 := rfl
    have hsize := Text.utf8Size_eq_one hletter
    have hafter : afterBytes? 2 s = some t := afterBytes?_of_append ['0', letter] hs.symm (by simp [hzero, hsize])
    rw [hradix, hnumber]
    simp [hafter, digitsLength_eq haccept, hzero, hsize]
    omega
  | missing hradix hnumber =>
    rw [hradix, hnumber]
    exact decimalLength?_eq s

/-! ## Strings -/

theorem utf8Size_toLower (c : Char) : c.toLower.utf8Size = c.utf8Size := by
  unfold Char.toLower
  split
  · next h =>
    have hc : c.val.toNat ≤ 90 := h.2
    have hshift : ('a'.val - 'A'.val).toNat = 32 := rfl
    rw [Text.utf8Size_eq_one (Nat.lt_of_le_of_lt hc (by decide))]
    refine Text.utf8Size_eq_one ?_
    show (c.val + ('a'.val - 'A'.val)).toNat < 128
    rw [UInt32.toNat_add, hshift]
    omega
  · rfl

theorem byteCount_map_toLower (s : List Char) : byteCount (s.map Char.toLower) = byteCount s := by
  induction s with
  | nil => rfl
  | cons c s ih => rw [List.map_cons, Text.byteCount_cons, Text.byteCount_cons, ih, utf8Size_toLower]

/-- Letters take the same bytes in either case. -/
theorem byteCount_take_of_map_toLower (h : (s.take mark.length).map Char.toLower = mark) :
    byteCount (s.take mark.length) = byteCount mark := by
  calc byteCount (s.take mark.length)
    _ = byteCount ((s.take mark.length).map Char.toLower) := (byteCount_map_toLower _).symm
    _ = byteCount mark := by rw [h]

/-- The letters before a quote are compared in bytes as in characters. -/
theorem fits?_eq (s mark : List Char) : fits? s mark = some (opensWith s mark) := by
  unfold fits? opensWith
  by_cases hmark : (s.take mark.length).map Char.toLower = mark
  · have hcut : cutAt? (byteCount mark) s = some (s.take mark.length, s.drop mark.length) :=
      cutAt?_eq_some_iff.mpr ⟨List.take_append_drop _ _, byteCount_take_of_map_toLower hmark⟩
    simp [firstBytes?, afterBytes?, hcut, hmark]
  · rw [decide_eq_false hmark, Bool.false_and]
    cases hcut : cutAt? (byteCount mark) s with
    | none => simp [firstBytes?, hcut]
    | some cut =>
      obtain ⟨candidate, body⟩ := cut
      obtain ⟨rfl, -⟩ := cutAt?_eq_some_iff.mp hcut
      have hcandidate : candidate.map Char.toLower ≠ mark := by
        rintro rfl
        exact hmark (by simp)
      simp [firstBytes?, afterBytes?, hcut, hcandidate]

theorem stringPrefixLength?_eq (s : List Char) : stringPrefixLength? s = some ((stringPrefix? s).map byteCount) := by
  unfold stringPrefixLength? stringPrefix?
  split
  · rfl
  · have hfits : fits? s = fun mark => pure (opensWith s mark) := funext (fits?_eq s)
    rw [hfits, List.findM?_pure]
    cases hfind : stringPrefixes.find? (opensWith s) with
    | none => rfl
    | some mark =>
      have hopens := List.find?_some hfind
      unfold opensWith at hopens
      have hmark := of_decide_eq_true (Bool.and_eq_true_iff.mp hopens).1
      simp [byteCount_take_of_map_toLower hmark]

theorem isPrefixOf_three (quote : Char) (rest : List Char) :
    [quote, quote, quote].isPrefixOf (quote :: rest) = decide (rest.take 2 = [quote, quote]) := by
  rcases rest with _ | ⟨c, _ | ⟨d, rest⟩⟩
  · simp [List.isPrefixOf]
  · simp [List.isPrefixOf]
  · simp [List.isPrefixOf, Bool.beq_eq_decide_eq, eq_comm]

/-- Reading on to the closing quotes comes to the length of what the lexer splits off there. -/
theorem closeLength?_eq {triple : Bool} {opened read body done : List Char} {opening index : Nat}
    (hquote : quote.utf8Size = 1) (hopening : byteCount opened = opening) (hdone : done.reverse = mark ++ (opened ++ read))
    (hbody : opened ++ read ++ s = body) (hindex : byteCount read = index) :
    closeLength? quote triple (byteCount mark) opening body index s =
      some ((closeString quote triple done s).map fun split => byteCount split.1) := by
  -- on what the lexer reads next; a character that is only read moves from the rest of the text to what has been read
  fun_induction closeString quote triple done s generalizing read index with
  | case1 done => rfl
  | case2 done c rest ih =>
    unfold closeLength?
    exact @ih (read ++ ['\\', c]) _ (by simp [hdone]) (by simpa using hbody) (by simp [hindex, Nat.add_assoc])
  | case3 done rest hother =>
    cases rest with
    | nil => rfl
    | cons c rest => exact (hother c rest rfl rfl).elim
  | case4 done c rest hother hc hbreak =>
    unfold closeLength?
    rw [if_neg hc, if_pos hbreak]
    rfl
  | case5 done rest htriple hother hc hbreak =>
    unfold closeLength?
    rw [if_neg hc, if_neg hbreak, if_pos rfl, if_pos htriple]
    simp [hdone, hopening, hindex, hquote, Nat.add_assoc]
  | case6 done rest htriple hclose hother hc hbreak =>
    have hafter : afterBytes? (opening + index) body = some (quote :: rest) :=
      afterBytes?_of_append (opened ++ read) hbody (by simp [hopening, hindex])
    unfold closeLength?
    rw [if_neg hc, if_neg hbreak, if_pos rfl, if_neg htriple, hafter]
    simp only [Option.bind_eq_bind, Option.bind_some, isPrefixOf_three, hclose, decide_true, if_true]
    simp [hdone, hopening, hindex, hquote, Nat.add_assoc]
  | case7 done rest htriple hclose hother hc hbreak ih =>
    have hafter : afterBytes? (opening + index) body = some (quote :: rest) :=
      afterBytes?_of_append (opened ++ read) hbody (by simp [hopening, hindex])
    unfold closeLength?
    rw [if_neg hc, if_neg hbreak, if_pos rfl, if_neg htriple, hafter]
    simp only [Option.bind_eq_bind, Option.bind_some, isPrefixOf_three, hclose, decide_false, Bool.false_eq_true, if_false]
    exact @ih (read ++ [quote]) _ (by simp [hdone]) (by simpa using hbody) (by simp [hindex])
  | case8 done c rest hother hc hbreak hne ih =>
    unfold closeLength?
    rw [if_neg hc, if_neg hbreak, if_neg hne]
    exact @ih (read ++ [c]) _ (by simp [hdone]) (by simpa using hbody) (by simp [hindex])

theorem utf8Size_of_isQuote (h : isQuote quote = true) : quote.utf8Size = 1 := by
  rcases isQuote_iff.mp h with rfl | rfl <;> rfl

/-- A string is as long as what the lexer splits off. -/
theorem stringLength?_eq (hmark : stringPrefix? s = some mark) :
    stringLength? s (byteCount mark) = some ((stringLiteral? mark s).map fun split => byteCount split.1) := by
  obtain ⟨-, quote, body, rfl, hquote⟩ := stringPrefix?_eq_some_iff.mp hmark
  have hsize := utf8Size_of_isQuote hquote
  simp only [stringLength?, Text.afterBytes?_append, Option.bind_eq_bind, Option.bind_some, List.head?_cons,
    isPrefixOf_three, stringLiteral?, List.drop_left]
  by_cases htriple : body.take 2 = [quote, quote]
  · have hbody : [quote, quote, quote] ++ body.drop 2 = quote :: body := by
      rw [← List.take_append_drop 2 body, htriple]
      simp
    have hthree : byteCount [quote, quote, quote] = 3 := by simp [hsize]
    simp only [htriple, decide_true, if_true, afterBytes?_of_append _ hbody hthree, Option.bind_some]
    exact closeLength?_eq hsize hthree (by simp) (by simpa using hbody) Text.byteCount_nil
  · have hone : byteCount [quote] = 1 := by simp [hsize]
    have hbody : [quote] ++ body = quote :: body := rfl
    simp only [htriple, decide_false, Bool.false_eq_true, if_false, afterBytes?_of_append _ hbody hone, Option.bind_some]
    exact closeLength?_eq hsize hone (by simp) (by simp) Text.byteCount_nil

/-! ## All lengths -/

/-- Whether every length that is asked of a text is found, without a cut inside a character or behind the end of the text, and
is the place between two of its characters or at one of its ends. -/
structure LengthsFit (s : List Char) : Prop where
  span : ∀ p, IsBoundary s (spanLength p s)
  lineBreak : IsBoundary s (lineBreakLength s)
  digits : ∀ accept : UInt8 → Bool, (∀ b, accept b = true → b.toNat < 128) → IsBoundary s (digitsLength accept s)
  number : ∃ n, numberLength? s = some n ∧ IsBoundary s n
  stringPrefix : ∃ mark, stringPrefixLength? s = some mark ∧ ∀ n, mark = some n → IsBoundary s n
  string : ∀ mark, stringPrefixLength? s = some (some mark) →
    ∃ found, stringLength? s mark = some found ∧ ∀ n, found = some n → IsBoundary s n
  operator : ∀ o, operator? s = some o → IsBoundary s (byteCount o.1)

theorem isBoundary_of_split {split : Split} (hs : split.1 ++ split.2 = s) : IsBoundary s (byteCount split.1) :=
  ⟨split.1, split.2, hs, rfl⟩

theorem lengthsFit (s : List Char) : LengthsFit s where
  span p := by
    rw [spanLength_eq]
    exact isBoundary_of_split (spanOf_append p s)
  lineBreak := by
    cases s with
    | nil => exact ⟨[], [], rfl, rfl⟩
    | cons c rest =>
      cases hc : isLineBreak c with
      | true =>
        rw [lineBreakLength_eq hc]
        exact isBoundary_of_split (lineBreak_append _)
      | false =>
        rw [lineBreakLength_eq_zero hc]
        exact ⟨[], _, rfl, rfl⟩
  digits accept haccept := by
    rw [digitsLength_eq (.of_lt haccept)]
    exact isBoundary_of_split (spanOf_append _ s)
  number := ⟨_, numberLength?_eq s, isBoundary_of_split (number_append s)⟩
  stringPrefix := by
    refine ⟨_, stringPrefixLength?_eq s, ?_⟩
    intro n hn
    obtain ⟨mark, hmark, rfl⟩ := Option.map_eq_some_iff.mp hn
    obtain ⟨-, quote, rest, rfl, -⟩ := stringPrefix?_eq_some_iff.mp hmark
    exact Text.isBoundary_append mark _
  string n hn := by
    rw [stringPrefixLength?_eq] at hn
    obtain ⟨mark, hmark, rfl⟩ := Option.map_eq_some_iff.mp (Option.some.inj hn)
    refine ⟨_, stringLength?_eq hmark, ?_⟩
    intro n hn
    obtain ⟨split, hsplit, rfl⟩ := Option.map_eq_some_iff.mp hn
    exact isBoundary_of_split (stringLiteral?_append (stringPrefix?_take hmark) hsplit)
  operator o ho := ⟨o.1, s.drop o.1.length, (operator?_append ho).1, rfl⟩

end Lexeme.Python
