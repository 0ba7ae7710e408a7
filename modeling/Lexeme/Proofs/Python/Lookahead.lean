import Mathlib.Data.List.Find
import Lexeme.Proofs.Python.SilentLines

/-!
# Text after the end of a line

What a text that begins with a line break (`AtLineEnd`) changes, when it follows another text, for each function that reads
on to find a segment. None of them goes past the line break unless a string does (`StopsAtLineEnd`), so what is taken before
it does not depend on what follows.

Two functions see that the text does not end where it did: a carriage return at the end takes a line feed with it, and the
letter of a base after a zero begins the digits of a number only if something follows it.
-/

namespace Lexeme.Python

/-- The same beginning, with more text after what is left. -/
def Split.before (split : Split) (tail : List Char) : Split := (split.1, split.2 ++ tail)

/-- Whether a function that splits texts takes no more of a text for a line break after it. -/
def StopsAtLineEnd (f : List Char → Split) : Prop :=
  ∀ s {tail : List Char}, AtLineEnd tail → f (s ++ tail) = (f s).before tail

/-- Whether a property of characters does not hold of line breaks. -/
def FailsAtBreaks (p : Char → Bool) : Prop := ∀ c, isLineBreak c = true → p c = false

variable {tail : List Char}

theorem atLineEnd_cons {c : Char} (h : isLineBreak c = true) (rest : List Char) : AtLineEnd (c :: rest) := by
  rintro d hd
  obtain rfl := Option.some.inj hd
  exact h

theorem atLineEnd_feed : AtLineEnd ['\n'] := atLineEnd_cons rfl []

/-- A text at the end of a line ends, or begins with a line break. -/
theorem AtLineEnd.cases (h : AtLineEnd tail) : tail = [] ∨ ∃ c rest, tail = c :: rest ∧ (c = '\n' ∨ c = '\r') := by
  cases tail with
  | nil => exact .inl rfl
  | cons c rest => exact .inr ⟨c, rest, rfl, isLineBreak_iff.mp (h c rfl)⟩

theorem failsAtBreaks_iff {p : Char → Bool} : FailsAtBreaks p ↔ p '\n' = false ∧ p '\r' = false := by
  constructor
  · exact fun h => ⟨h _ rfl, h _ rfl⟩
  · rintro ⟨hfeed, hreturn⟩ c hc
    rcases isLineBreak_iff.mp hc with rfl | rfl
    · exact hfeed
    · exact hreturn

theorem failsAtBreaks_isBlank : FailsAtBreaks isBlank := failsAtBreaks_iff.mpr ⟨rfl, rfl⟩

theorem failsAtBreaks_not_isLineBreak : FailsAtBreaks (!isLineBreak ·) := failsAtBreaks_iff.mpr ⟨rfl, rfl⟩

theorem spanOf_tail {p : Char → Bool} (hp : FailsAtBreaks p) : StopsAtLineEnd (spanOf p) := by
  intro s tail htail
  induction s with
  | nil =>
    have hspan := @spanOf_append_of_all p [] tail (by simp) fun c hc => hp c (htail c hc)
    simpa [Split.before, spanOf] using hspan
  | cons c s ih =>
    cases hc : p c with
    | true => simpa [spanOf, Split.before, hc] using ih
    | false => simp [spanOf, Split.before, hc]

theorem StopsAtLineEnd.andThen {first second : List Char → Split} (hfirst : StopsAtLineEnd first)
    (hsecond : StopsAtLineEnd second) : StopsAtLineEnd fun s => (first s).andThen second := by
  intro s tail htail
  simp only [hfirst s htail, Split.andThen, Split.before, hsecond (first s).2 htail]

theorem head?_any_tail {p : Char → Bool} (hp : FailsAtBreaks p) (htail : AtLineEnd tail) (s : List Char) :
    (s ++ tail).head?.any p = s.head?.any p := by
  cases s with
  | nil =>
    rcases htail.cases with rfl | ⟨c, rest, rfl, -⟩
    · rfl
    · simp [hp c (htail c rfl)]
  | cons c s => rfl

theorem isPrefix_tail {mark : List Char} (hmark : ∀ c ∈ mark, isLineBreak c = false) (htail : AtLineEnd tail)
    (s : List Char) : mark <+: s ++ tail ↔ mark <+: s := by
  induction mark generalizing s with
  | nil => simp
  | cons m mark ih =>
    obtain ⟨hm, hmark⟩ := List.forall_mem_cons.mp hmark
    cases s with
    | nil =>
      -- what follows begins with a line break, if with anything
      refine iff_of_false (fun h => ?_) (by simp)
      obtain ⟨rest, hrest⟩ := h
      rw [List.nil_append] at hrest
      rw [htail m (by simp [← hrest])] at hm
      cases hm
    | cons c s => rw [List.cons_append, List.cons_prefix_cons, List.cons_prefix_cons, ih hmark]

/-! ## Line breaks -/

theorem lineBreak_cons_cons {c d : Char} (h : ¬(c = '\r' ∧ d = '\n')) (rest : List Char) :
    lineBreak (c :: d :: rest) = ([c], d :: rest) := by
  unfold lineBreak
  split <;> simp_all

/-- Only a carriage return takes a line feed after it. -/
theorem lineBreak_feed {c : Char} {rest : List Char} (h : c :: rest ≠ ['\r']) :
    lineBreak (c :: rest ++ ['\n']) = (lineBreak (c :: rest)).before ['\n'] := by
  cases rest with
  | nil =>
    have hc : c ≠ '\r' := by simpa using h
    simp [lineBreak, Split.before, hc]
  | cons d rest =>
    by_cases hcd : c = '\r' ∧ d = '\n'
    · obtain ⟨rfl, rfl⟩ := hcd
      rfl
    · rw [List.cons_append, List.cons_append, lineBreak_cons_cons hcd, lineBreak_cons_cons hcd]
      rfl

/-! ## Strings -/

theorem isQuote_iff {c : Char} : isQuote c = true ↔ c = '\'' ∨ c = '"' := by
  simp [isQuote]

/-- Quotes break no line. -/
theorem isLineBreak_of_isQuote {c : Char} (h : isQuote c = true) : isLineBreak c = false := by
  rcases isQuote_iff.mp h with rfl | rfl <;> rfl

theorem isQuote_feed {c : Char} (h : isQuote c = true) : c ≠ '\n' := by
  rintro rfl
  cases h

theorem failsAtBreaks_isQuote : FailsAtBreaks isQuote := failsAtBreaks_iff.mpr ⟨rfl, rfl⟩

theorem isLineBreak_of_mem_stringPrefixes {mark : List Char} (hmark : mark ∈ stringPrefixes) :
    ∀ c ∈ mark, isLineBreak c = false := by
  have hall : ∀ mark ∈ stringPrefixes, mark.all (!isLineBreak ·) = true := by decide
  exact fun c hc => by simpa using List.all_eq_true.mp (hall mark hmark) c hc

theorem opensWith_cons (c m : Char) (s mark : List Char) :
    opensWith (c :: s) (m :: mark) = (decide (c.toLower = m) && opensWith s mark) := by
  simp [opensWith, Bool.and_assoc]

theorem opensWith_tail {mark : List Char} (hmark : ∀ c ∈ mark, isLineBreak c = false) (htail : AtLineEnd tail)
    (s : List Char) : opensWith (s ++ tail) mark = opensWith s mark := by
  induction mark generalizing s with
  | nil =>
    have hhead := head?_any_tail failsAtBreaks_isQuote htail s
    simpa [opensWith] using hhead
  | cons m mark ih =>
    obtain ⟨hm, hmark⟩ := List.forall_mem_cons.mp hmark
    cases s with
    | nil =>
      rcases htail.cases with rfl | ⟨c, rest, rfl, hc⟩
      · rfl
      · have hlower : c.toLower ≠ m := by
          rcases hc with rfl | rfl <;>
          · rintro rfl
            cases hm
        rw [List.nil_append, opensWith_cons, decide_eq_false hlower]
        rfl
    | cons c s => rw [List.cons_append, opensWith_cons, opensWith_cons, ih hmark]

theorem opensWith_length {s mark : List Char} (h : opensWith s mark = true) : mark.length < s.length := by
  by_contra hlength
  simp [opensWith, List.drop_eq_nil_of_le (Nat.le_of_not_lt hlength)] at h

theorem stringPrefix?_tail (htail : AtLineEnd tail) (s : List Char) : stringPrefix? (s ++ tail) = stringPrefix? s := by
  unfold stringPrefix?
  rw [head?_any_tail failsAtBreaks_isQuote htail,
    List.find?_congr fun mark hmark => opensWith_tail (isLineBreak_of_mem_stringPrefixes hmark) htail s]
  refine if_congr Iff.rfl rfl (Option.map_congr fun mark hmark => ?_)
  exact List.take_append_of_le_length (opensWith_length (List.find?_some hmark)).le

/-- A quote follows the letters before a string. -/
theorem isQuote_of_stringPrefix? {s mark : List Char} (h : stringPrefix? s = some mark) :
    (s.drop mark.length).head?.any isQuote = true := by
  unfold stringPrefix? at h
  split at h
  · next hquote =>
    obtain rfl := Option.some.inj h
    exact hquote
  · obtain ⟨m, hm, rfl⟩ := Option.map_eq_some_iff.mp h
    have hopens := List.find?_some hm
    have hlength := opensWith_length hopens
    simp only [opensWith, Bool.and_eq_true] at hopens
    rw [List.length_take, Nat.min_eq_left hlength.le]
    exact hopens.2

theorem take_two_tail {quote : Char} (hquote : isLineBreak quote = false) (htail : AtLineEnd tail) (s : List Char) :
    (s ++ tail).take 2 = [quote, quote] ↔ s.take 2 = [quote, quote] := by
  have h := @isPrefix_tail tail [quote, quote] (by simp [hquote]) htail s
  rw [List.prefix_iff_eq_take, List.prefix_iff_eq_take] at h
  exact ⟨fun htake => (h.mp htake.symm).symm, fun htake => (h.mpr htake.symm).symm⟩

theorem drop_two_append {quote : Char} {s : List Char} (h : s.take 2 = [quote, quote]) :
    (s ++ tail).drop 2 = s.drop 2 ++ tail := by
  have hlength := congrArg List.length h
  simp only [List.length_take, List.length_cons, List.length_nil] at hlength
  exact List.drop_append_of_le_length (by omega)

theorem closeString_cons {quote c : Char} {triple : Bool} (hc : c ≠ '\\') (done rest : List Char) :
    closeString quote triple done (c :: rest) =
      if isLineBreak c && !triple then none
      else if c = quote then
        if !triple then some ((c :: done).reverse, rest)
        else if rest.take 2 = [quote, quote] then some ((quote :: quote :: c :: done).reverse, rest.drop 2)
        else closeString quote triple (c :: done) rest
      else closeString quote triple (c :: done) rest := by
  rw [closeString, if_neg hc]
  exact fun _ _ h => absurd h hc

/-- A backslash at the end of a text keeps a string open. -/
theorem closeString_backslash {quote : Char} {triple : Bool} (done : List Char) :
    closeString quote triple done ['\\'] = none := by
  rw [closeString, if_pos rfl]
  simp

/-- A string that is closed is closed whatever follows. -/
theorem closeString_tail {quote : Char} {triple : Bool} {done s : List Char} {split : Split}
    (hquote : isLineBreak quote = false) (htail : AtLineEnd tail) (h : closeString quote triple done s = some split) :
    closeString quote triple done (s ++ tail) = some (split.before tail) := by
  fun_induction closeString quote triple done s with
  | case1 => cases h
  | case2 done c rest ih =>
    rw [List.cons_append, List.cons_append, closeString]
    exact ih h
  | case3 => cases h
  | case4 => cases h
  | case5 done rest hsingle _ hc hbreak =>
    rw [List.cons_append, closeString_cons hc, if_neg hbreak, if_pos rfl, if_pos hsingle, ← Option.some.inj h]
    rfl
  | case6 done rest htriple hclose _ hc hbreak =>
    rw [List.cons_append, closeString_cons hc, if_neg hbreak, if_pos rfl, if_neg htriple,
      if_pos ((take_two_tail hquote htail rest).mpr hclose), drop_two_append hclose, ← Option.some.inj h]
    rfl
  | case7 done rest htriple hopen _ hc hbreak ih =>
    rw [List.cons_append, closeString_cons hc, if_neg hbreak, if_pos rfl, if_neg htriple,
      if_neg (mt (take_two_tail hquote htail rest).mp hopen)]
    exact ih h
  | case8 done c rest _ hc hbreak hother ih =>
    rw [List.cons_append, closeString_cons hc, if_neg hbreak, if_neg hother]
    exact ih h

theorem stringLiteral?_tail {mark s : List Char} {split : Split} (htail : AtLineEnd tail) (hmark : stringPrefix? s = some mark)
    (h : stringLiteral? mark s = some split) : stringLiteral? mark (s ++ tail) = some (split.before tail) := by
  have hquote := isQuote_of_stringPrefix? hmark
  cases hdrop : s.drop mark.length with
  | nil => simp [hdrop] at hquote
  | cons quote body =>
    have hlength : mark.length < s.length := by
      by_contra hlength
      rw [List.drop_eq_nil_of_le (Nat.le_of_not_lt hlength)] at hdrop
      cases hdrop
    have hquote : isLineBreak quote = false := isLineBreak_of_isQuote (by simpa [hdrop] using hquote)
    simp only [stringLiteral?, hdrop] at h
    simp only [stringLiteral?, List.drop_append_of_le_length hlength.le, hdrop, List.cons_append,
      take_two_tail hquote htail]
    split at h
    · next hthree =>
      rw [if_pos hthree, drop_two_append hthree]
      exact closeString_tail hquote htail h
    · next hthree =>
      rw [if_neg hthree]
      exact closeString_tail hquote htail h

/-! ## Numbers -/

theorem failsAtBreaks_isDecimal : FailsAtBreaks isDecimal := failsAtBreaks_iff.mpr ⟨rfl, rfl⟩

theorem fraction_tail : StopsAtLineEnd fraction := by
  intro s tail htail
  fun_cases fraction s with
  | case1 s =>
    rw [List.cons_append, fraction, spanOf_tail failsAtBreaks_isDecimal s htail]
    rfl
  | case2 s h =>
    cases s with
    | nil => rcases htail.cases with rfl | ⟨c, rest, rfl, rfl | rfl⟩ <;> rfl
    | cons c s =>
      have hc : c ≠ '.' := fun hc => h s (by rw [hc])
      simp [fraction, hc, Split.before]

theorem exponentDigits_tail (before : List Char) : StopsAtLineEnd (exponentDigits before) := by
  intro s tail htail
  rw [exponentDigits, exponentDigits, spanOf_tail failsAtBreaks_isDecimal s htail]
  rcases hspan : spanOf isDecimal s with ⟨digits, rest⟩
  cases digits <;> simp [Split.before]

theorem exponent_of_ne {c : Char} (hlower : c ≠ 'e') (hupper : c ≠ 'E') (s : List Char) :
    exponent (c :: s) = ([], c :: s) := by
  cases s <;> simp [exponent, hlower, hupper]

theorem exponent_tail : StopsAtLineEnd exponent := by
  intro s tail htail
  rcases s with _ | ⟨e, _ | ⟨sign, s⟩⟩
  · rcases htail.cases with rfl | ⟨c, rest, rfl, rfl | rfl⟩
    · rfl
    · exact exponent_of_ne (by decide) (by decide) rest
    · exact exponent_of_ne (by decide) (by decide) rest
  · rcases htail.cases with rfl | ⟨c, rest, rfl, rfl | rfl⟩
    · rfl
    · simp [exponent, Split.before, exponentDigits, spanOf, isDecimal]
    · simp [exponent, Split.before, exponentDigits, spanOf, isDecimal]
  · simp only [List.cons_append, exponent]
    split_ifs
    · exact exponentDigits_tail _ _ htail
    · exact exponentDigits_tail _ (sign :: s) htail
    · rfl

theorem imaginary_tail : StopsAtLineEnd imaginary := by
  intro s tail htail
  fun_cases imaginary s with
  | case1 s => rfl
  | case2 s => rfl
  | case3 s hlower hupper =>
    cases s with
    | nil => rcases htail.cases with rfl | ⟨c, rest, rfl, rfl | rfl⟩ <;> rfl
    | cons c s =>
      have hc : c ≠ 'j' ∧ c ≠ 'J' := ⟨fun hc => hlower s (by rw [hc]), fun hc => hupper s (by rw [hc])⟩
      simp [imaginary, hc.1, hc.2, Split.before]

theorem decimal_tail : StopsAtLineEnd decimal :=
  (((spanOf_tail failsAtBreaks_isDecimal).andThen fraction_tail).andThen exponent_tail).andThen imaginary_tail

/-- Whether a text is a zero and the letter of a base. -/
def IsBareBase (s : List Char) : Prop := ∃ letter, (radixDigit? letter).isSome ∧ s = ['0', letter]

/-- Neither character of a line break is a digit to any base. -/
theorem failsAtBreaks_radixDigit? {letter : Char} {isDigit : Char → Bool} (h : radixDigit? letter = some isDigit) :
    FailsAtBreaks fun c => isDigit c || c = '_' := by
  refine failsAtBreaks_iff.mpr ?_
  unfold radixDigit? at h
  split at h <;> first | exact Option.some.inj h ▸ ⟨rfl, rfl⟩ | cases h

theorem number_eq_decimal {s : List Char}
    (h : ∀ letter next t, s = '0' :: letter :: next :: t → radixDigit? letter = none) : number s = decimal s := by
  fun_cases number s with
  | case1 letter next t isDigit hdigit => rw [h letter next t rfl] at hdigit; cases hdigit
  | case2 => rfl
  | case3 => rfl

theorem isSome_radixDigit?_iff {letter : Char} :
    (radixDigit? letter).isSome ↔ letter ∈ ['x', 'X', 'o', 'O', 'b', 'B'] := by
  fun_cases radixDigit? letter <;> simp_all

/-- The letter of a base at the end of a text begins no digits. -/
theorem number_tail {s : List Char} (h : ¬IsBareBase s) (htail : AtLineEnd tail) :
    number (s ++ tail) = (number s).before tail := by
  fun_cases number s with
  | case1 letter next t isDigit hdigit digits =>
    simp only [List.cons_append, number, hdigit]
    rw [← List.cons_append, spanOf_tail (failsAtBreaks_radixDigit? hdigit) (next :: t) htail]
    rfl
  | case2 letter next t hdigit =>
    rw [← decimal_tail _ htail]
    exact number_eq_decimal fun _ _ _ heq => (List.cons.inj (List.cons.inj heq).2).1 ▸ hdigit
  | case3 s hshort =>
    rw [← decimal_tail _ htail]
    refine number_eq_decimal fun letter next t heq => ?_
    rcases s with _ | ⟨zero, _ | ⟨base, _ | ⟨digit, s⟩⟩⟩
    · rcases htail.cases with rfl | ⟨c, rest, rfl, rfl | rfl⟩ <;> cases heq
    · -- the letter would be a line break
      rcases htail.cases with rfl | ⟨c, rest, rfl, rfl | rfl⟩
      · cases heq
      · obtain ⟨-, rfl, -⟩ : _ ∧ '\n' = letter ∧ _ := by simpa using heq
        rfl
      · obtain ⟨-, rfl, -⟩ : _ ∧ '\r' = letter ∧ _ := by simpa using heq
        rfl
    · obtain ⟨rfl, rfl, -⟩ : zero = '0' ∧ base = letter ∧ _ := by simpa using heq
      by_contra hradix
      exact h ⟨base, Option.isSome_iff_ne_none.mpr hradix, rfl⟩
    · obtain ⟨rfl, rfl, -⟩ : zero = '0' ∧ base = letter ∧ _ := by simpa using heq
      exact absurd rfl (hshort base digit s)

/-- A line break after a zero and the letter of a base makes the letter part of the number. -/
theorem number_bareBase {letter : Char} (h : (radixDigit? letter).isSome) :
    number ['0', letter] = (['0'], [letter]) ∧
      ∀ {c rest}, isLineBreak c = true → number ('0' :: letter :: c :: rest) = (['0', letter], c :: rest) := by
  have hletter := isSome_radixDigit?_iff.mp h
  simp only [List.mem_cons, List.not_mem_nil, or_false] at hletter
  refine ⟨by rcases hletter with rfl | rfl | rfl | rfl | rfl | rfl <;> rfl, fun {c rest} hc => ?_⟩
  obtain ⟨isDigit, hdigit⟩ := Option.isSome_iff_exists.mp h
  have hspan := spanOf_tail (failsAtBreaks_radixDigit? hdigit) [] (atLineEnd_cons hc rest)
  rw [List.nil_append] at hspan
  simp only [number, hdigit, hspan]
  rfl

theorem beginsNumber_tail (htail : AtLineEnd tail) (s : List Char) : beginsNumber (s ++ tail) = beginsNumber s := by
  rcases s with _ | ⟨c, _ | ⟨d, s⟩⟩
  · rcases htail.cases with rfl | ⟨c, rest, rfl, rfl | rfl⟩ <;> rfl
  · by_cases hc : c = '.'
    · subst hc
      rcases htail.cases with rfl | ⟨c, rest, rfl, rfl | rfl⟩ <;> rfl
    · simp [beginsNumber, hc]
  · by_cases hc : c = '.'
    · subst hc
      rfl
    · simp [beginsNumber, hc]

/-! ## Words and operators -/

theorem failsAtBreaks_isWordChar : FailsAtBreaks isWordChar :=
  failsAtBreaks_iff.mpr ⟨by decide +kernel, by decide +kernel⟩

/-- No operator breaks a line. -/
theorem isLineBreak_of_mem_operatorsByLength {o : List Char × Nat} (ho : o ∈ operatorsByLength) :
    ∀ c ∈ o.1, isLineBreak c = false := by
  have hall : ∀ text ∈ operators, text.toList.all (!isLineBreak ·) = true := by decide
  simpa using hall _ (List.mem_of_getElem? (getElem?_operators_of_mem ho))

theorem operator?_tail (htail : AtLineEnd tail) (s : List Char) : operator? (s ++ tail) = operator? s := by
  refine List.find?_congr fun o ho => ?_
  rw [Bool.eq_iff_iff, List.isPrefixOf_iff_prefix, List.isPrefixOf_iff_prefix,
    isPrefix_tail (isLineBreak_of_mem_operatorsByLength ho) htail]

/-! ## Segments -/

/-- What is found at the beginning of a line is found whatever follows the line. -/
theorem indentation_tail (htail : AtLineEnd tail) (levels : List Nat) (space rest : List Char) :
    indentation levels space (rest ++ tail) = indentation levels space rest := by
  have hsilent : isSilentRest (rest ++ tail) = isSilentRest rest := by
    cases rest with
    | nil => rcases htail.cases with rfl | ⟨c, rest, rfl, rfl | rfl⟩ <;> rfl
    | cons c rest => rfl
  unfold isSilentRest at hsilent
  simp only [indentation, hsilent]

/-- The same segment and state, with more text after what is left. -/
def Next.before (n : Next) (tail : List Char) : Next := (n.1, n.2.1, n.2.2 ++ tail)

theorem endLine_before (st : State) (split : Split) (tail : List Char) :
    st.endLine (split.before tail) = (st.endLine split).before tail := by
  unfold State.endLine
  split <;> rfl

theorem content_tail {st : State} {c : Char} {s : List Char} {n : Next} (hbare : ¬IsBareBase s) (htail : AtLineEnd tail)
    (h : content st c s = .ok n) : content st c (s ++ tail) = .ok (n.before tail) := by
  unfold content at h ⊢
  rw [stringPrefix?_tail htail, beginsNumber_tail htail, operator?_tail htail, number_tail hbare htail,
    spanOf_tail failsAtBreaks_isWordChar s htail]
  cases hmark : stringPrefix? s with
  | some mark =>
    simp only [hmark] at h ⊢
    split at h
    · next split hsplit =>
      rw [stringLiteral?_tail htail hmark hsplit, ← Except.ok.inj h]
      rfl
    · cases h
  | none =>
    simp only [hmark] at h ⊢
    split_ifs at h ⊢
    · rw [← Except.ok.inj h]
      rfl
    · rw [← Except.ok.inj h]
      rfl
    · cases hoperator : operator? s with
      | none => rw [hoperator] at h; cases h
      | some o =>
        obtain ⟨happend, -⟩ := operator?_append hoperator
        have hlength := congrArg List.length happend
        simp only [List.length_append, List.length_drop] at hlength
        simp only [hoperator] at h ⊢
        rw [List.drop_append_of_le_length (by omega), ← Except.ok.inj h]
        rfl

/-- A backslash at the end of a text is no segment. -/
theorem content_backslash (st : State) (n : Next) : content st '\\' ['\\'] ≠ .ok n := by
  have hoperator : operator? ['\\'] = none := by
    refine List.find?_eq_none.mpr fun o ho hprefix => ?_
    have hall : ∀ text ∈ operators, ¬text.toList.isPrefixOf ['\\'] := by decide
    have hnot := hall _ (List.mem_of_getElem? (getElem?_operators_of_mem ho))
    rw [String.toList_ofList] at hnot
    exact hnot hprefix
  have hstring : stringPrefix? ['\\'] = none := by decide
  have hnumber : beginsNumber ['\\'] = false := by decide
  have hword : isWordStart '\\' = false := by decide +kernel
  simp [content, hoperator, hstring, hnumber, hword]

/-- A zero begins a number. -/
theorem next_zero (st : State) (rest : List Char) :
    next st '0' rest = .ok (st.reveal .number (number ('0' :: rest))) := by
  have hstring : stringPrefix? ('0' :: rest) = none := by
    simp [stringPrefix?, stringPrefixes, opensWith, isQuote]
  have hnumber : beginsNumber ('0' :: rest) = true := rfl
  simp [next, content, isLineBreak, isBlank, hstring, hnumber]

/-- The letter of a base begins a name. -/
theorem next_letter {letter : Char} (h : (radixDigit? letter).isSome) (st : State) :
    next st letter [] = .ok (st.reveal .name ([letter], [])) := by
  have hletter := isSome_radixDigit?_iff.mp h
  simp only [List.mem_cons, List.not_mem_nil, or_false] at hletter
  obtain ⟨⟨hbreak, hblank, hbackslash, hhash⟩, hstring, hnumber, hstart, hspan, hkind⟩ :
      (isLineBreak letter = false ∧ isBlank letter = false ∧ letter ≠ '\\' ∧ letter ≠ '#') ∧
        stringPrefix? [letter] = none ∧ beginsNumber [letter] = false ∧ isWordStart letter = true ∧
        spanOf isWordChar [letter] = ([letter], []) ∧ wordKind [letter] = .name := by
    rcases hletter with rfl | rfl | rfl | rfl | rfl | rfl <;> decide +kernel
  simp [next, content, hbreak, hblank, hbackslash, hhash, hstring, hnumber, hstart, hspan, hkind]

/-! ## Steps -/

/-- How a segment inside a line is found again when a line feed follows the text. -/
inductive NextFed (st : State) (c : Char) (rest : List Char) (n : Next) : Prop
  | apart (hbare : ¬IsBareBase (c :: rest)) (h : next st c (rest ++ ['\n']) = .ok (n.before ['\n']))
  /-- A carriage return at the end of the text takes the line feed. -/
  | joined (hkind : n.1.kind = .newline ∨ n.1.kind = .skip) (htext : n.1.text.getLast? = some '\r') (hleft : n.2.2 = [])
      (h : next st c (rest ++ ['\n']) = .ok (⟨n.1.kind, n.1.text ++ ['\n']⟩, n.2.1, []))
  /-- The letter of a base at the end of the text goes to the number. -/
  | merged (hbare : IsBareBase (c :: rest)) (hn : n = st.reveal .number (['0'], rest))
      (h : next st c (rest ++ ['\n']) = .ok (st.reveal .number (c :: rest, ['\n'])))

theorem nextFed_return {st : State} {n : Next} (h : next st '\r' [] = .ok n) : NextFed st '\r' [] n := by
  have hshort : next st '\r' [] = .ok (st.endLine (['\r'], [])) := rfl
  have hlong : next st '\r' ['\n'] = .ok (st.endLine (['\r', '\n'], [])) := rfl
  rw [hshort] at h
  obtain rfl := Except.ok.inj h
  unfold State.endLine at hlong ⊢
  split_ifs at hlong ⊢
  · exact .joined (.inl rfl) rfl rfl hlong
  · exact .joined (.inr rfl) rfl rfl hlong

/-- A line that is continued after a backslash. -/
theorem nextFed_continued {st : State} {rest : List Char} {n : Next} (hrest : rest.head?.any isLineBreak = true)
    (h : next st '\\' rest = .ok n) : NextFed st '\\' rest n := by
  have hnext (text : List Char) (htext : text.head?.any isLineBreak = true) :
      next st '\\' text = .ok (st.hide .skip ('\\' :: (lineBreak text).1, (lineBreak text).2)) := by
    rw [next, if_neg (by decide), if_neg (by decide), if_pos ⟨rfl, htext⟩]
  rw [hnext rest hrest] at h
  obtain rfl := Except.ok.inj h
  cases rest with
  | nil => cases hrest
  | cons d rest =>
    have hlong := hnext (d :: rest ++ ['\n']) hrest
    by_cases hreturn : d :: rest = ['\r']
    · rw [hreturn] at hlong ⊢
      exact .joined (.inr rfl) rfl rfl hlong
    · rw [lineBreak_feed hreturn] at hlong
      exact .apart (by simp [IsBareBase]) hlong

theorem next_feed {st : State} {c : Char} {rest : List Char} {n : Next} (h : next st c rest = .ok n) :
    NextFed st c rest n := by
  by_cases hbare : IsBareBase (c :: rest)
  · obtain ⟨letter, hletter, hcons⟩ := id hbare
    obtain ⟨rfl, rfl⟩ := List.cons.inj hcons
    obtain ⟨hshort, hlong⟩ := number_bareBase hletter
    rw [next_zero, hshort] at h
    refine .merged hbare (Except.ok.inj h).symm ?_
    rw [next_zero, List.singleton_append, hlong rfl]
  by_cases hreturn : c :: rest = ['\r']
  · obtain ⟨rfl, rfl⟩ := List.cons.inj hreturn
    exact nextFed_return h
  by_cases hcontinued : c = '\\' ∧ rest.head?.any isLineBreak
  · obtain ⟨rfl, hrest⟩ := hcontinued
    exact nextFed_continued hrest h
  refine .apart hbare ?_
  have hfeed := atLineEnd_feed
  -- a backslash at the end of the text would be continued by the line feed
  have hbackslash : ¬(c = '\\' ∧ (rest ++ ['\n']).head?.any isLineBreak) := by
    rintro ⟨rfl, hany⟩
    cases rest with
    | nil => exact content_backslash st n h
    | cons d rest => exact hcontinued ⟨rfl, hany⟩
  unfold next at h ⊢
  rw [if_neg hcontinued] at h
  rw [if_neg hbackslash, ← List.cons_append, lineBreak_feed hreturn, endLine_before, spanOf_tail failsAtBreaks_isBlank _ hfeed,
    spanOf_tail failsAtBreaks_not_isLineBreak _ hfeed]
  split_ifs at h ⊢
  · exact congrArg (fun n => Except.ok (n.before ['\n'])) (Except.ok.inj h)
  · exact congrArg (fun n => Except.ok (n.before ['\n'])) (Except.ok.inj h)
  · exact congrArg (fun n => Except.ok (n.before ['\n'])) (Except.ok.inj h)
  · exact content_tail hbare hfeed h

end Lexeme.Python
