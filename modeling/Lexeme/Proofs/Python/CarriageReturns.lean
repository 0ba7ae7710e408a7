import Lexeme.Proofs.Python.Lookahead

/-!
# A carriage return before every line feed

What a carriage return before every line feed of a text (`crlf`) changes for each function that finds a segment. Where a
text is split does not change (`KeepsReturns`), because no function tells the two line breaks apart, with one exception:
a backslash in a string keeps one character from meaning anything, so of two characters that break a line it leaves the
second. The second then ends a string that one quote opens (`stringLiteral?_crlf`).
-/

namespace Lexeme

namespace Python

/-- A text with a carriage return before every line feed. -/
def crlf (s : List Char) : List Char := s.flatMap fun c => if c = '\n' then ['\r', '\n'] else [c]

@[simp] theorem crlf_nil : crlf [] = [] := rfl

@[simp] theorem crlf_feed (s : List Char) : crlf ('\n' :: s) = '\r' :: '\n' :: crlf s := rfl

theorem crlf_cons {c : Char} (hc : c ≠ '\n') (s : List Char) : crlf (c :: s) = c :: crlf s := by
  simp [crlf, hc]

@[simp] theorem crlf_append (s t : List Char) : crlf (s ++ t) = crlf s ++ crlf t := List.flatMap_append

theorem crlf_eq_self {s : List Char} (h : '\n' ∉ s) : crlf s = s := by
  induction s with
  | nil => rfl
  | cons c s ih =>
    obtain ⟨hc, hs⟩ := not_or.mp (mt List.mem_cons.mpr h)
    rw [crlf_cons (Ne.symm hc), ih hs]

@[simp] theorem crlf_eq_nil_iff {s : List Char} : crlf s = [] ↔ s = [] := by
  cases s with
  | nil => simp
  | cons c s => by_cases hc : c = '\n' <;> simp [crlf, hc]

/-- A text that is not empty begins with some character. -/
theorem exists_cons_crlf (c : Char) (s : List Char) : ∃ c' s', crlf (c :: s) = c' :: s' :=
  List.exists_cons_of_ne_nil (mt crlf_eq_nil_iff.mp (List.cons_ne_nil c s))

/-- What a text begins with after a carriage return was put before every line feed. -/
theorem eq_cons_of_crlf {s t : List Char} {c : Char} (h : crlf s = c :: t) (hc : c ≠ '\r') :
    ∃ rest, s = c :: rest ∧ t = crlf rest := by
  cases s with
  | nil => cases h
  | cons d s =>
    by_cases hd : d = '\n'
    · subst hd
      exact absurd (List.cons.inj h).1.symm hc
    · rw [crlf_cons hd] at h
      obtain ⟨rfl, rfl⟩ := List.cons.inj h
      exact ⟨s, rfl, rfl⟩

/-- A line feed and the carriage return before it are alike to a property that holds of neither or of both. -/
theorem head?_any_crlf {p : Char → Bool} (hp : p '\r' = p '\n') (s : List Char) : (crlf s).head?.any p = s.head?.any p := by
  cases s with
  | nil => rfl
  | cons c s =>
    by_cases hc : c = '\n'
    · subst hc
      exact hp
    · rw [crlf_cons hc]
      rfl

/-- A beginning without line feeds stays a beginning. -/
theorem take_drop_crlf {s : List Char} {n : Nat} (h : '\n' ∉ s.take n) :
    (crlf s).take n = s.take n ∧ (crlf s).drop n = crlf (s.drop n) := by
  rcases Nat.le_total n s.length with hn | hn
  · have hlength : n = (s.take n).length := by rw [List.length_take, Nat.min_eq_left hn]
    have hs : crlf s = s.take n ++ crlf (s.drop n) := by
      rw [← crlf_eq_self h, ← crlf_append, List.take_append_drop]
    rw [hs]
    exact ⟨List.take_left' hlength.symm, List.drop_left' hlength.symm⟩
  · rw [List.take_of_length_le hn] at h ⊢
    rw [crlf_eq_self h, List.drop_of_length_le hn]
    exact ⟨List.take_of_length_le hn, rfl⟩

/-- A text without line breaks is a beginning before exactly when it is one after. -/
theorem isPrefix_crlf {mark : List Char} (hmark : ∀ c ∈ mark, isLineBreak c = false) (s : List Char) :
    mark <+: crlf s ↔ mark <+: s := by
  induction mark generalizing s with
  | nil => simp
  | cons m mark ih =>
    obtain ⟨hm, hmark⟩ := List.forall_mem_cons.mp hmark
    cases s with
    | nil => simp
    | cons c s =>
      by_cases hc : c = '\n'
      · subst hc
        have hreturn : m ≠ '\r' ∧ m ≠ '\n' := by simpa [isLineBreak, and_comm] using hm
        simp [hreturn.1, hreturn.2]
      · rw [crlf_cons hc, List.cons_prefix_cons, List.cons_prefix_cons, ih hmark]

end Python

/-- A segment with a carriage return before every line feed of its text. -/
def Segment.crlf {κ : Type} (s : Segment κ) : Segment κ := ⟨s.kind, Python.crlf s.text⟩

namespace Python

/-! ## Splits -/

/-- A split of a text with a carriage return before every line feed. -/
def Split.crlf (split : Split) : Split := (Python.crlf split.1, Python.crlf split.2)

/-- Whether a function splits a text at the same place when a carriage return is put before every line feed. -/
def KeepsReturns (f : List Char → Split) : Prop := ∀ s, f (crlf s) = (f s).crlf

theorem spanOf_crlf {p : Char → Bool} (hp : FailsAtBreaks p) : KeepsReturns (spanOf p) := by
  intro s
  obtain ⟨hfeed, hreturn⟩ := failsAtBreaks_iff.mp hp
  induction s with
  | nil => rfl
  | cons c s ih =>
    by_cases hc : c = '\n'
    · subst hc
      simp [spanOf, Split.crlf, hreturn, hfeed]
    · rw [crlf_cons hc]
      cases hp : p c with
      | true => simpa [spanOf, Split.crlf, hp, crlf_cons hc] using ih
      | false => simp [spanOf, Split.crlf, hp, crlf_cons hc]

theorem KeepsReturns.andThen {first second : List Char → Split} (hfirst : KeepsReturns first) (hsecond : KeepsReturns second) :
    KeepsReturns fun s => (first s).andThen second := by
  intro s
  simp only [hfirst s, Split.andThen, Split.crlf, hsecond (first s).2, crlf_append]

/-- A line feed breaks a line together with the carriage return before it. -/
theorem lineBreak_crlf (rest : List Char) : lineBreak (crlf ('\n' :: rest)) = (lineBreak ('\n' :: rest)).crlf := by
  have hfeed : lineBreak ('\n' :: rest) = (['\n'], rest) := by
    rw [lineBreak]
    intro _ h
    simp at h
  rw [hfeed]
  rfl

/-! ## Numbers -/

theorem fraction_crlf : KeepsReturns fraction := by
  intro s
  fun_cases fraction s with
  | case1 s =>
    rw [crlf_cons (by decide), fraction, spanOf_crlf failsAtBreaks_isDecimal]
    simp [Split.crlf, crlf_cons]
  | case2 s h =>
    rw [fraction]
    · rfl
    · intro t ht
      obtain ⟨rest, hs, -⟩ := eq_cons_of_crlf ht (by decide)
      exact h rest hs

theorem exponentDigits_crlf {before : List Char} (hbefore : '\n' ∉ before) (s : List Char) :
    exponentDigits before (crlf s) = (exponentDigits before s).crlf := by
  rw [exponentDigits, exponentDigits, spanOf_crlf failsAtBreaks_isDecimal]
  rcases hspan : spanOf isDecimal s with ⟨_ | ⟨c, digits⟩, rest⟩
  · simp [Split.crlf, crlf_eq_self hbefore]
  · have hc : c ≠ '\n' := by
      rintro rfl
      have hmem : '\n' ∈ s.takeWhile isDecimal := by
        rw [show s.takeWhile isDecimal = '\n' :: digits from congrArg Prod.fst hspan]
        exact List.mem_cons_self
      exact absurd (List.mem_takeWhile_imp hmem) (by decide)
    simp [Split.crlf, crlf_eq_self hbefore, crlf_cons hc]

/-- Without its letter there is no exponent. -/
theorem exponent_of_head {s : List Char} (h : s.head?.any (fun e => e = 'e' || e = 'E') = false) : exponent s = ([], s) := by
  rcases s with _ | ⟨e, _ | ⟨sign, s⟩⟩
  · rfl
  · rfl
  · have he : ¬(e = 'e' ∨ e = 'E') := by simpa using h
    rw [exponent, if_neg he]

theorem exponent_crlf : KeepsReturns exponent := by
  intro s
  by_cases hhead : s.head?.any (fun e => e = 'e' || e = 'E') = true
  · rcases s with _ | ⟨e, _ | ⟨sign, s⟩⟩
    · rfl
    · have he : e ≠ '\n' := by
        rintro rfl
        cases hhead
      simp [crlf_cons he, exponent, Split.crlf]
    · have he : e = 'e' ∨ e = 'E' := by simpa using hhead
      have hfeed : e ≠ '\n' := by
        rintro rfl
        cases hhead
      by_cases hsign : sign = '+' ∨ sign = '-'
      · have hsign' : sign ≠ '\n' := by
          rintro rfl
          rcases hsign with hsign | hsign <;> cases hsign
        rw [crlf_cons hfeed, crlf_cons hsign', exponent, if_pos he, if_pos hsign, exponent, if_pos he, if_pos hsign]
        exact exponentDigits_crlf (by simp [hfeed.symm, hsign'.symm]) s
      · -- the digits of the exponent begin here, whatever the character is
        have hdigits : exponent (crlf (e :: sign :: s)) = exponentDigits [e] (crlf (sign :: s)) := by
          rw [crlf_cons hfeed]
          by_cases hsign' : sign = '\n'
          · subst hsign'
            rw [crlf_feed, exponent, if_pos he, if_neg (by decide)]
          · rw [crlf_cons hsign', exponent, if_pos he, if_neg hsign]
        rw [hdigits, exponent, if_pos he, if_neg hsign]
        exact exponentDigits_crlf (by simp [hfeed.symm]) (sign :: s)
  · have hhead : s.head?.any (fun e => e = 'e' || e = 'E') = false := by simpa using hhead
    rw [exponent_of_head hhead, exponent_of_head ((head?_any_crlf rfl s).trans hhead)]
    rfl

theorem imaginary_crlf : KeepsReturns imaginary := by
  intro s
  fun_cases imaginary s with
  | case1 s => simp [crlf_cons, imaginary, Split.crlf]
  | case2 s => simp [crlf_cons, imaginary, Split.crlf]
  | case3 s hlower hupper =>
    rw [imaginary]
    · rfl
    · intro t ht
      obtain ⟨rest, hs, -⟩ := eq_cons_of_crlf ht (by decide)
      exact hlower rest hs
    · intro t ht
      obtain ⟨rest, hs, -⟩ := eq_cons_of_crlf ht (by decide)
      exact hupper rest hs

theorem decimal_crlf : KeepsReturns decimal :=
  (((spanOf_crlf failsAtBreaks_isDecimal).andThen fraction_crlf).andThen exponent_crlf).andThen imaginary_crlf

/-- No letter of a base comes to stand after a zero. -/
theorem radixDigit?_eq_none_crlf {s : List Char}
    (h : ∀ letter next t, s = '0' :: letter :: next :: t → radixDigit? letter = none) :
    ∀ letter next t, crlf s = '0' :: letter :: next :: t → radixDigit? letter = none := by
  intro letter next t ht
  by_contra hradix
  obtain ⟨rest, rfl, hrest⟩ := eq_cons_of_crlf ht (by decide)
  have hletter : letter ≠ '\r' := by
    rintro rfl
    exact hradix rfl
  obtain ⟨more, rfl, hmore⟩ := eq_cons_of_crlf hrest.symm hletter
  obtain ⟨c, u, rfl⟩ : ∃ c u, more = c :: u := by
    refine List.exists_cons_of_ne_nil ?_
    rintro rfl
    cases hmore
  exact hradix (h letter c u rfl)

theorem number_crlf : KeepsReturns number := by
  intro s
  fun_cases number s with
  | case1 letter next t isDigit hdigit digits =>
    have hletter : letter ≠ '\n' := by
      rintro rfl
      cases hdigit
    obtain ⟨next', t', hnext⟩ := exists_cons_crlf next t
    have hspan := spanOf_crlf (failsAtBreaks_radixDigit? hdigit) (next :: t)
    rw [crlf_cons (by decide), crlf_cons hletter, hnext, number]
    rw [hnext] at hspan
    simp only [hdigit, hspan, Split.crlf, crlf_cons hletter, crlf_cons (show '0' ≠ '\n' by decide), digits]
  | case2 letter next t hdigit =>
    rw [← decimal_crlf]
    refine number_eq_decimal (radixDigit?_eq_none_crlf fun _ _ _ heq => ?_)
    obtain ⟨rfl, -⟩ := List.cons.inj (List.cons.inj heq).2
    exact hdigit
  | case3 s hshort =>
    rw [← decimal_crlf]
    exact number_eq_decimal (radixDigit?_eq_none_crlf fun letter next t heq => absurd heq (hshort letter next t))

theorem beginsNumber_crlf (s : List Char) : beginsNumber (crlf s) = beginsNumber s := by
  cases s with
  | nil => rfl
  | cons c s =>
    by_cases hfeed : c = '\n'
    · subst hfeed
      rfl
    · rw [crlf_cons hfeed]
      by_cases hpoint : c = '.'
      · subst hpoint
        have hhead := head?_any_crlf (p := Char.isDigit) rfl s
        cases s with
        | nil => rfl
        | cons d s =>
          obtain ⟨d', s', hd⟩ := exists_cons_crlf d s
          rw [hd] at hhead ⊢
          exact hhead
      · simp [beginsNumber, hpoint]

/-! ## Strings -/

/-- The letters before a quote are those of `stringPrefixes`, in either case. -/
theorem toLower_mem_of_opensWith {s mark : List Char} (h : opensWith s mark = true) {c : Char} (hc : c ∈ s.take mark.length) :
    c.toLower ∈ mark := by
  simp only [opensWith, Bool.and_eq_true, decide_eq_true_eq] at h
  have hmem := List.mem_map_of_mem (f := Char.toLower) hc
  rwa [h.1] at hmem

theorem not_mem_take_of_opensWith {s mark : List Char} (hmark : mark ∈ stringPrefixes) (h : opensWith s mark = true) :
    '\n' ∉ s.take mark.length := by
  have hall : ∀ mark ∈ stringPrefixes, Char.toLower '\n' ∉ mark := by decide
  exact fun hfeed => hall mark hmark (toLower_mem_of_opensWith h hfeed)

/-- Neither a quote nor a line feed is among the letters before a quote. -/
theorem forall_mem_stringPrefix? {s mark : List Char} (h : stringPrefix? s = some mark) :
    ∀ c ∈ mark, isQuote c = false ∧ c ≠ '\n' := by
  intro c hc
  unfold stringPrefix? at h
  split at h
  · obtain rfl := Option.some.inj h
    cases hc
  · obtain ⟨m, hm, rfl⟩ := Option.map_eq_some_iff.mp h
    have hopens := List.find?_some hm
    have hmem := List.mem_of_find?_eq_some hm
    have hall : ∀ mark ∈ stringPrefixes, Char.toLower '\'' ∉ mark ∧ Char.toLower '"' ∉ mark := by decide
    refine ⟨Bool.eq_false_iff.mpr fun hquote => ?_, ?_⟩
    · have hlower := toLower_mem_of_opensWith hopens hc
      rcases isQuote_iff.mp hquote with rfl | rfl
      · exact (hall m hmem).1 hlower
      · exact (hall m hmem).2 hlower
    · rintro rfl
      exact not_mem_take_of_opensWith hmem hopens hc

theorem opensWith_crlf {mark : List Char} (hmark : ∀ c ∈ mark, isLineBreak c = false) (s : List Char) :
    opensWith (crlf s) mark = opensWith s mark := by
  induction mark generalizing s with
  | nil => simp [opensWith, head?_any_crlf (p := isQuote) rfl]
  | cons m mark ih =>
    obtain ⟨hm, hmark⟩ := List.forall_mem_cons.mp hmark
    cases s with
    | nil => rfl
    | cons c s =>
      by_cases hc : c = '\n'
      · subst hc
        have hreturn : '\r' ≠ m ∧ '\n' ≠ m := by
          constructor <;> rintro rfl <;> cases hm
        rw [crlf_feed, opensWith_cons, opensWith_cons, show '\r'.toLower = '\r' from rfl,
          show '\n'.toLower = '\n' from rfl, decide_eq_false hreturn.1, decide_eq_false hreturn.2]
        rfl
      · rw [crlf_cons hc, opensWith_cons, opensWith_cons, ih hmark]

theorem stringPrefix?_crlf (s : List Char) : stringPrefix? (crlf s) = stringPrefix? s := by
  unfold stringPrefix?
  rw [head?_any_crlf rfl, List.find?_congr fun mark hmark => opensWith_crlf (isLineBreak_of_mem_stringPrefixes hmark) s]
  refine if_congr Iff.rfl rfl (Option.map_congr fun mark hmark => ?_)
  exact (take_drop_crlf (not_mem_take_of_opensWith (List.mem_of_find?_eq_some hmark) (List.find?_some hmark))).1

theorem take_two_crlf {quote : Char} (hquote : isQuote quote = true) (s : List Char) :
    (crlf s).take 2 = [quote, quote] ↔ s.take 2 = [quote, quote] := by
  have hmark : ∀ c ∈ [quote, quote], isLineBreak c = false := by
    simp [isLineBreak_of_isQuote hquote]
  have h := isPrefix_crlf hmark s
  rw [List.prefix_iff_eq_take, List.prefix_iff_eq_take] at h
  exact ⟨fun htake => (h.mp htake.symm).symm, fun htake => (h.mpr htake.symm).symm⟩

theorem drop_two_crlf {quote : Char} (hquote : quote ≠ '\n') {s : List Char} (h : s.take 2 = [quote, quote]) :
    (crlf s).drop 2 = crlf (s.drop 2) :=
  (take_drop_crlf (by simp [h, hquote.symm])).2

theorem ne_backslash_of_isLineBreak {c : Char} (h : isLineBreak c = true) : c ≠ '\\' := by
  rintro rfl
  cases h

/-- A line break between three quotes is like any other character. -/
theorem closeString_lineBreak {quote c : Char} (hquote : isQuote quote = true) (hc : isLineBreak c = true)
    (done rest : List Char) : closeString quote true done (c :: rest) = closeString quote true (c :: done) rest := by
  have hne : c ≠ quote := by
    rintro rfl
    cases hc.symm.trans (isLineBreak_of_isQuote hquote)
  rw [closeString_cons (ne_backslash_of_isLineBreak hc), if_neg (by simp), if_neg hne]

/-- Between three quotes the two characters of a line break are read one after the other, also after a backslash. -/
theorem closeString_crlf_triple {quote : Char} (hquote : isQuote quote = true) {done done' s : List Char}
    (hdone : done'.reverse = crlf done.reverse) :
    closeString quote true done' (crlf s) = (closeString quote true done s).map Split.crlf := by
  have hfeed : quote ≠ '\n' := isQuote_feed hquote
  have hbackslash : '\\' ≠ '\n' := by decide
  have hcons {c : Char} {done done' : List Char} (hc : c ≠ '\n') (h : done'.reverse = crlf done.reverse) :
      (c :: done').reverse = crlf (c :: done).reverse := by
    simp [h, crlf_cons hc]
  fun_induction closeString quote true done s generalizing done' with
  | case1 => rw [crlf_nil, closeString]; rfl
  | case2 done c rest ih =>
    rw [crlf_cons hbackslash]
    by_cases hc : c = '\n'
    · subst hc
      rw [crlf_feed, closeString, closeString_lineBreak hquote rfl]
      exact ih (by rw [List.reverse_cons, List.reverse_cons, List.reverse_cons, hdone]; simp [crlf_cons hbackslash])
    · rw [crlf_cons hc, closeString]
      exact ih (hcons hc (hcons hbackslash hdone))
  | case3 done rest hlast =>
    cases rest with
    | nil =>
      rw [crlf_cons hbackslash, crlf_nil, closeString_backslash]
      rfl
    | cons c rest => exact (hlast c rest rfl rfl).elim
  | case4 _ _ _ _ _ hbreak => simp at hbreak
  | case5 _ _ hsingle => simp at hsingle
  | case6 done rest htriple hclose _ hc hbreak =>
    rw [crlf_cons hfeed, closeString_cons hc, if_neg hbreak, if_pos rfl, if_neg htriple,
      if_pos ((take_two_crlf hquote rest).mpr hclose), drop_two_crlf hfeed hclose, hcons hfeed (hcons hfeed (hcons hfeed hdone))]
    rfl
  | case7 done rest htriple hopen _ hc hbreak ih =>
    rw [crlf_cons hfeed, closeString_cons hc, if_neg hbreak, if_pos rfl, if_neg htriple,
      if_neg (mt (take_two_crlf hquote rest).mp hopen)]
    exact ih (hcons hfeed hdone)
  | case8 done c rest _ hc hbreak hother ih =>
    by_cases hfeed : c = '\n'
    · subst hfeed
      rw [crlf_feed, closeString_lineBreak hquote rfl, closeString_lineBreak hquote rfl]
      exact ih (by rw [List.reverse_cons, List.reverse_cons, List.reverse_cons, hdone]; simp)
    · rw [crlf_cons hfeed, closeString_cons hc, if_neg hbreak, if_neg hother]
      exact ih (hcons hfeed hdone)

/-- A string begins with what has been read of it. -/
theorem prefix_of_closeString {quote : Char} {triple : Bool} {done s : List Char} {split : Split}
    (h : closeString quote triple done s = some split) : done.reverse <+: split.1 := by
  have hcons {c : Char} {done t : List Char} (h : (c :: done).reverse <+: t) : done.reverse <+: t := by
    rw [List.reverse_cons] at h
    exact (List.prefix_append _ _).trans h
  fun_induction closeString quote triple done s with
  | case1 => cases h
  | case2 done c rest ih => exact hcons (hcons (ih h))
  | case3 => cases h
  | case4 => cases h
  | case5 =>
    obtain rfl := Option.some.inj h
    exact hcons (List.prefix_refl _)
  | case6 =>
    obtain rfl := Option.some.inj h
    exact hcons (hcons (hcons (List.prefix_refl _)))
  | case7 _ _ _ _ _ _ _ ih => exact hcons (ih h)
  | case8 _ _ _ _ _ _ _ ih => exact hcons (ih h)

/-- A line break ends a string between two quotes before its time. -/
theorem closeString_eq_none {quote c : Char} (hc : isLineBreak c = true) (done rest : List Char) :
    closeString quote false done (c :: rest) = none := by
  rw [closeString_cons (ne_backslash_of_isLineBreak hc), if_pos (by simp [hc])]

/-- Between two quotes a line feed stands only after a backslash. There the carriage return takes its place, and the line
feed after it ends the string before its time. -/
theorem closeString_crlf_single {quote : Char} (hquote : isQuote quote = true) {done s : List Char} (hdone : '\n' ∉ done) :
    closeString quote false done (crlf s) =
      (closeString quote false done s).bind fun split => if '\n' ∈ split.1 then none else some split.crlf := by
  have hfeed : quote ≠ '\n' := isQuote_feed hquote
  have hbackslash : '\\' ≠ '\n' := by decide
  have hcons {c : Char} {done : List Char} (hc : c ≠ '\n') (h : '\n' ∉ done) : '\n' ∉ c :: done := by
    simp [hc.symm, h]
  fun_induction closeString quote false done s with
  | case1 => rw [crlf_nil, closeString]; rfl
  | case2 done c rest ih =>
    rw [crlf_cons hbackslash]
    by_cases hc : c = '\n'
    · subst hc
      rw [crlf_feed, closeString, closeString_eq_none rfl]
      refine (Option.bind_eq_none_iff.mpr fun split hsplit => if_pos ?_).symm
      exact (prefix_of_closeString hsplit).subset (by simp)
    · rw [crlf_cons hc, closeString]
      exact ih (hcons hc (hcons hbackslash hdone))
  | case3 done rest hlast =>
    cases rest with
    | nil =>
      rw [crlf_cons hbackslash, crlf_nil, closeString_backslash]
      rfl
    | cons c rest => exact (hlast c rest rfl rfl).elim
  | case4 done c rest _ hc hbreak =>
    by_cases hfeed : c = '\n'
    · subst hfeed
      rw [crlf_feed, closeString_eq_none rfl]
      rfl
    · rw [crlf_cons hfeed, closeString_cons hc, if_pos hbreak]
      rfl
  | case5 done rest hsingle _ hc hbreak =>
    have hquoted : '\n' ∉ (quote :: done).reverse := mt List.mem_reverse.mp (hcons hfeed hdone)
    rw [crlf_cons hfeed, closeString_cons hc, if_neg hbreak, if_pos rfl, if_pos hsingle, Option.bind_some, if_neg hquoted,
      Split.crlf, crlf_eq_self hquoted]
  | case6 _ _ htriple => simp at htriple
  | case7 _ _ htriple => simp at htriple
  | case8 done c rest _ hc hbreak hother ih =>
    have hfeed : c ≠ '\n' := by
      rintro rfl
      exact hbreak rfl
    rw [crlf_cons hfeed, closeString_cons hc, if_neg hbreak, if_neg hother]
    exact ih (hcons hfeed hdone)

/-- Whether three quotes open a string, after its letters. -/
def isTriple (text : List Char) : Bool :=
  match text.dropWhile (!isQuote ·) with
  | a :: b :: c :: _ => a = b && b = c
  | _ => false

/-- Whether a segment is a string that one quote opens and that goes on in a new line. -/
def isContinued (s : Segment Kind) : Bool := s.kind = .string && !isTriple s.text && s.text.contains '\n'

theorem isContinued_of_kind {s : Segment Kind} (h : s.kind ≠ .string) : isContinued s = false := by
  simp [isContinued, h]

theorem isTriple_append {mark : List Char} (hmark : ∀ c ∈ mark, isQuote c = false) {quote : Char} (hquote : isQuote quote = true)
    (t : List Char) : isTriple (mark ++ quote :: t) = decide (t.take 2 = [quote, quote]) := by
  have hdrop : (mark ++ quote :: t).dropWhile (!isQuote ·) = quote :: t := by
    rw [List.dropWhile_append_of_pos fun c hc => by simp [hmark c hc]]
    simp [hquote]
  rw [isTriple, hdrop]
  rcases t with _ | ⟨a, _ | ⟨b, t⟩⟩
  · rfl
  · simp
  · rw [Bool.eq_iff_iff]
    simp only [Bool.and_eq_true, decide_eq_true_eq, List.take_succ_cons, List.take_zero, List.cons.injEq, and_true]
    constructor
    · rintro ⟨rfl, rfl⟩
      exact ⟨rfl, rfl⟩
    · rintro ⟨rfl, rfl⟩
      exact ⟨rfl, rfl⟩

/-- Only a string that goes on in a new line after one quote opened it is not found any more. -/
theorem stringLiteral?_crlf {mark s : List Char} (hmark : stringPrefix? s = some mark) :
    stringLiteral? mark (crlf s) =
      (stringLiteral? mark s).bind fun split => if isContinued ⟨.string, split.1⟩ then none else some split.crlf := by
  have hletters := forall_mem_stringPrefix? hmark
  have hplain : '\n' ∉ mark := fun hfeed => (hletters _ hfeed).2 rfl
  have hquotes : ∀ c ∈ mark, isQuote c = false := fun c hc => (hletters c hc).1
  have htake := stringPrefix?_take hmark
  have hdrop := (take_drop_crlf (htake.symm ▸ hplain)).2
  have hquote := isQuote_of_stringPrefix? hmark
  cases hrest : s.drop mark.length with
  | nil => simp [hrest] at hquote
  | cons quote body =>
    have hquote : isQuote quote = true := by simpa [hrest] using hquote
    have hfeed := isQuote_feed hquote
    rw [hrest, crlf_cons hfeed] at hdrop
    simp only [stringLiteral?, hdrop, hrest, take_two_crlf hquote]
    split
    · next hthree =>
      have hopen : '\n' ∉ mark ++ [quote, quote, quote] := by simp [hplain, hfeed.symm]
      rw [drop_two_crlf hfeed hthree, closeString_crlf_triple hquote (by rw [List.reverse_reverse, crlf_eq_self hopen]),
        Option.map_eq_bind]
      refine Option.bind_congr fun split hsplit => (if_neg ?_).symm
      -- three quotes still stand at the beginning of the whole string
      obtain ⟨t, ht⟩ := prefix_of_closeString hsplit
      have htext : split.1 = mark ++ quote :: quote :: quote :: t := by simp [← ht]
      simp [isContinued, htext, isTriple_append hquotes hquote]
    · next hone =>
      rw [closeString_crlf_single hquote (by simp [hplain, hfeed.symm])]
      refine Option.bind_congr fun split hsplit => ?_
      -- two more quotes at its beginning would be the beginning of the text
      obtain ⟨t, ht⟩ := prefix_of_closeString hsplit
      have htext : split.1 = mark ++ quote :: t := by simp [← ht]
      have hbody : t ++ split.2 = body := by
        have happend := closeString_append hsplit
        rw [htext] at happend
        simpa using happend
      have htriple : isTriple split.1 = false := by
        rw [htext, isTriple_append hquotes hquote]
        refine decide_eq_false fun htwo => hone ?_
        rw [← hbody, List.take_append_of_le_length, htwo]
        have hlength := congrArg List.length htwo
        simp only [List.length_take, List.length_cons, List.length_nil] at hlength
        omega
      simp [isContinued, htriple]

/-! ## Words and operators -/

theorem wordKind_crlf (s : List Char) : wordKind (spanOf isWordChar (crlf s)).1 = wordKind (spanOf isWordChar s).1 := by
  have hword : '\n' ∉ (spanOf isWordChar s).1 := by
    intro hfeed
    have hchar := List.mem_takeWhile_imp hfeed
    rw [failsAtBreaks_isWordChar _ rfl] at hchar
    cases hchar
  rw [spanOf_crlf failsAtBreaks_isWordChar, Split.crlf, crlf_eq_self hword]

theorem operator?_crlf (s : List Char) : operator? (crlf s) = operator? s := by
  refine List.find?_congr fun o ho => ?_
  rw [Bool.eq_iff_iff, List.isPrefixOf_iff_prefix, List.isPrefixOf_iff_prefix,
    isPrefix_crlf (isLineBreak_of_mem_operatorsByLength ho)]

/-! ## Segments -/

/-- The same state, with a carriage return before every line feed of the segment and of what is left. -/
def Next.crlf (n : Next) : Next := (n.1.crlf, n.2.1, Python.crlf n.2.2)

/-- What a carriage return before every line feed makes of the next segment: a string that one quote opens does not go on
in a new line any more. -/
def crlfNext : Except Failure Next → Except Failure Next
  | .ok n => if isContinued n.1 then .error .unterminatedString else .ok n.crlf
  | .error e => .error e

theorem crlfNext_of_kind {n : Next} (h : n.1.kind ≠ .string) : crlfNext (.ok n) = .ok n.crlf := by
  rw [crlfNext, isContinued_of_kind h]
  rfl

theorem crlfNext_reveal (st : State) {kind : Kind} (h : kind ≠ .string) (split : Split) :
    crlfNext (.ok (st.reveal kind split)) = .ok (st.reveal kind split.crlf) :=
  crlfNext_of_kind h

theorem crlfNext_hide (st : State) {kind : Kind} (h : kind ≠ .string) (split : Split) :
    crlfNext (.ok (st.hide kind split)) = .ok (st.hide kind split.crlf) :=
  crlfNext_of_kind h

theorem crlfNext_endLine (st : State) (split : Split) : crlfNext (.ok (st.endLine split)) = .ok (st.endLine split.crlf) := by
  unfold State.endLine
  split
  · exact crlfNext_of_kind Kind.noConfusion
  · exact crlfNext_of_kind Kind.noConfusion

theorem content_crlf (st : State) (c : Char) (s : List Char) : content st c (crlf s) = crlfNext (content st c s) := by
  unfold content
  rw [stringPrefix?_crlf, beginsNumber_crlf, operator?_crlf, number_crlf, wordKind_crlf,
    spanOf_crlf failsAtBreaks_isWordChar]
  cases hmark : stringPrefix? s with
  | some mark =>
    simp only
    rw [stringLiteral?_crlf hmark]
    cases stringLiteral? mark s with
    | none => rfl
    | some split =>
      by_cases hcontinued : isContinued ⟨.string, split.1⟩ = true
      · simp [crlfNext, State.reveal, hcontinued]
      · rw [Option.bind_some, if_neg hcontinued]
        exact (if_neg hcontinued).symm
  | none =>
    simp only
    split_ifs
    · rw [crlfNext_reveal _ Kind.noConfusion]
    · rw [crlfNext_reveal _ (wordKind_ne_string _)]
    · cases hoperator : operator? s with
      | none => rfl
      | some o =>
        obtain ⟨mark, index⟩ := o
        have hplain : '\n' ∉ mark := by
          intro hfeed
          exact absurd (isLineBreak_of_mem_operatorsByLength (List.mem_of_find?_eq_some hoperator) _ hfeed) (by decide)
        have htake : s.take mark.length = mark := by
          have hprefix : mark <+: s := ⟨_, (operator?_append hoperator).1⟩
          exact (List.prefix_iff_eq_take.mp hprefix).symm
        simp only [(take_drop_crlf (htake.symm ▸ hplain)).2]
        rw [crlfNext_reveal _ Kind.noConfusion, Split.crlf, crlf_eq_self hplain]

/-- The next segment of a text with a carriage return before every line feed. -/
theorem next_crlf (st : State) {c : Char} {rest : List Char} (h : '\r' ∉ c :: rest) :
    ∃ c' rest', crlf (c :: rest) = c' :: rest' ∧ next st c' rest' = crlfNext (next st c rest) := by
  obtain ⟨hc, hrest⟩ := not_or.mp (mt List.mem_cons.mpr h)
  by_cases hfeed : c = '\n'
  · subst hfeed
    refine ⟨'\r', '\n' :: crlf rest, rfl, ?_⟩
    rw [next, if_pos (by decide), next, if_pos (by decide), crlfNext_endLine, ← lineBreak_crlf]
    rfl
  · refine ⟨c, crlf rest, crlf_cons hfeed rest, ?_⟩
    have hbreak : ¬isLineBreak c = true := by simp [isLineBreak, hfeed, Ne.symm hc]
    unfold next
    rw [if_neg hbreak, if_neg hbreak, head?_any_crlf rfl, ← crlf_cons hfeed, content_crlf,
      spanOf_crlf failsAtBreaks_isBlank, spanOf_crlf failsAtBreaks_not_isLineBreak]
    split_ifs with hblank hcontinued hcomment
    · rw [crlfNext_hide _ Kind.noConfusion]
    · obtain ⟨d, t, rfl⟩ : ∃ d t, rest = d :: t := by
        refine List.exists_cons_of_ne_nil ?_
        rintro rfl
        cases hcontinued.2
      obtain rfl : d = '\n' := by
        refine (isLineBreak_iff.mp hcontinued.2).resolve_right ?_
        rintro rfl
        exact hrest List.mem_cons_self
      rw [crlfNext_hide _ Kind.noConfusion, lineBreak_crlf]
      simp only [Split.crlf, crlf_cons hfeed]
    · rw [crlfNext_hide _ Kind.noConfusion]
    · rfl

end Python

end Lexeme
