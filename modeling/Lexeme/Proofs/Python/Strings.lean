import Lexeme.Proofs.Python.Refusals

/-!
# Where strings end

A string ends at the first closing quotes that begin at a place that is not escaped. What precedes such a place consists of
whole pieces (`IsWhole`): a backslash with the character after it, or any other character. `EndsAfter` says all there is to
say about the end of a string without reading the string; `closeString_eq_some_iff` says that this is how strings are read,
one lemma for each way in which a text can begin. From it follow what a string is (`stringLiteral?_eq_some_iff`) and where
a text is refused for a string that has no end (`string_exact`).
-/

namespace Lexeme.Python

/-! ## Before the quotes -/

/-- No letter before a quote is a quote itself. -/
theorem IsStringPrefix.isQuote_eq_false {mark : List Char} (h : IsStringPrefix mark) : ∀ c ∈ mark, isQuote c = false := by
  intro c hc
  rcases h with rfl | hmark
  · cases hc
  · have hall : ∀ mark ∈ stringPrefixes, '\'' ∉ mark ∧ '"' ∉ mark := by decide
    obtain ⟨hsingle, hdouble⟩ := hall _ hmark
    refine Bool.eq_false_iff.mpr fun hquote => ?_
    rcases isQuote_iff.mp hquote with rfl | rfl
    · exact hsingle (List.mem_map_of_mem (f := Char.toLower) hc)
    · exact hdouble (List.mem_map_of_mem (f := Char.toLower) hc)

/-- The letters before a quote are letters of a word. -/
theorem IsStringPrefix.isWordStart {mark : List Char} (h : IsStringPrefix mark) : ∀ c ∈ mark, isWordStart c = true := by
  intro c hc
  rcases h with rfl | hmark
  · cases hc
  · have hall : ∀ mark ∈ stringPrefixes, mark.all Char.isLower = true := by decide
    have hlower := List.all_eq_true.mp (hall _ hmark) _ (List.mem_map_of_mem (f := Char.toLower) hc)
    have halpha : c.isAlpha = true := by
      unfold Char.toLower at hlower
      split at hlower
      · next hupper => exact Bool.or_eq_true_iff.mpr (.inl (decide_eq_true hupper))
      · exact Bool.or_eq_true_iff.mpr (.inr hlower)
    simp [Python.isWordStart, Text.isAlphabetic_of_isAlpha halpha]

/-- The letters before a quote are all that precedes the first quote. -/
theorem takeWhile_not_isQuote {mark rest : List Char} {quote : Char} (hmark : ∀ c ∈ mark, isQuote c = false)
    (hquote : isQuote quote = true) : (mark ++ quote :: rest).takeWhile (!isQuote ·) = mark := by
  rw [List.takeWhile_append_of_pos fun c hc => by simp [hmark c hc], List.takeWhile_cons_of_neg (by simp [hquote]),
    List.append_nil]

theorem opensWith_iff {s mark : List Char} :
    opensWith s mark = true ↔ ∃ letters quote rest, s = letters ++ quote :: rest ∧ letters.map Char.toLower = mark ∧
      isQuote quote = true := by
  constructor
  · intro h
    simp only [opensWith, Bool.and_eq_true, decide_eq_true_eq, Option.any_eq_true] at h
    obtain ⟨hletters, quote, hhead, hquote⟩ := h
    obtain ⟨rest, hdrop⟩ := List.head?_eq_some_iff.mp hhead
    refine ⟨s.take mark.length, quote, rest, ?_, hletters, hquote⟩
    rw [← hdrop, List.take_append_drop]
  · rintro ⟨letters, quote, rest, rfl, rfl, hquote⟩
    simp [opensWith, hquote]

/-- A string begins with letters that may stand before a quote, and with a quote. -/
theorem stringPrefix?_eq_some_iff {s mark : List Char} :
    stringPrefix? s = some mark ↔ IsStringPrefix mark ∧ ∃ quote rest, s = mark ++ quote :: rest ∧ isQuote quote = true := by
  constructor
  · intro h
    obtain ⟨quote, hhead, hquote⟩ : ∃ quote, (s.drop mark.length).head? = some quote ∧ isQuote quote = true := by
      simpa [Option.any_eq_true] using isQuote_of_stringPrefix? h
    obtain ⟨rest, hdrop⟩ := List.head?_eq_some_iff.mp hhead
    have hs := List.take_append_drop mark.length s
    rw [stringPrefix?_take h, hdrop] at hs
    exact ⟨isStringPrefix_of_stringPrefix? h, quote, rest, hs.symm, hquote⟩
  · rintro ⟨hmark, quote, rest, rfl, hquote⟩
    have hbefore := @takeWhile_not_isQuote mark rest quote hmark.isQuote_eq_false hquote
    rcases hmark with rfl | hmem
    · simp [stringPrefix?, hquote]
    · -- any other letters that open the string end at the first quote, too
      have hopens : opensWith (mark ++ quote :: rest) (mark.map Char.toLower) = true :=
        opensWith_iff.mpr ⟨mark, quote, rest, rfl, rfl, hquote⟩
      obtain ⟨found, hfound⟩ := Option.isSome_iff_exists.mp (List.find?_isSome.mpr ⟨_, hmem, hopens⟩)
      obtain ⟨letters, other, after, hs, rfl, hother⟩ := opensWith_iff.mp (List.find?_some hfound)
      have hletters : IsStringPrefix letters := .inr (List.mem_of_find?_eq_some hfound)
      have hsame : mark = letters := by
        rw [← hbefore, hs]
        exact takeWhile_not_isQuote hletters.isQuote_eq_false hother
      obtain ⟨c, letters', rfl⟩ : ∃ c letters', mark = c :: letters' := by
        have hne : ∀ mark ∈ stringPrefixes, mark ≠ [] := by decide
        exact List.exists_cons_of_ne_nil fun hnil => hne _ hmem (by rw [hnil]; rfl)
      have hc : isQuote c = false := IsStringPrefix.isQuote_eq_false (.inr hmem) c List.mem_cons_self
      rw [stringPrefix?, if_neg (by simp [hc]), hfound, Option.map_some, List.length_map, ← hsame]
      simp

/-! ## The body of a string -/

/-- Whether a text consists of whole pieces: a backslash with the character after it, or any other character. What follows
such a text is not escaped. -/
inductive IsWhole : List Char → Prop
  | nil : IsWhole []
  | escaped {c : Char} {rest : List Char} (h : IsWhole rest) : IsWhole ('\\' :: c :: rest)
  | next {c : Char} {rest : List Char} (hc : c ≠ '\\') (h : IsWhole rest) : IsWhole (c :: rest)

/-- Whether the first closing quotes in a text come after a body, with a rest after them. The quotes and what is in the body
count only where they are not escaped. A single quote closes only a string without line breaks. -/
structure EndsAfter (quotes text body rest : List Char) : Prop where
  text_eq : text = body ++ (quotes ++ rest)
  isWhole : IsWhole body
  first : ∀ other after, text = other ++ (quotes ++ after) → IsWhole other → body.length ≤ other.length
  unbroken : quotes.length = 1 → ∀ before c after, body = before ++ c :: after → IsWhole before → isLineBreak c = false

section

variable {quotes text body rest : List Char} {c : Char}

/-- A text that begins with the quotes ends the string at once. -/
theorem endsAfter_iff_of_begins (h : quotes <+: text) :
    EndsAfter quotes text body rest ↔ body = [] ∧ text = quotes ++ rest := by
  obtain ⟨after, rfl⟩ := h
  constructor
  · intro hends
    have hnil : body = [] := by simpa using hends.first [] after rfl .nil
    exact ⟨hnil, by simpa [hnil] using hends.text_eq⟩
  · rintro ⟨rfl, htext⟩
    exact ⟨htext, .nil, fun _ _ _ _ => Nat.zero_le _, fun _ before c after h => by simp at h⟩

/-- A backslash and the character after it belong to the body. -/
theorem endsAfter_escaped_iff (hquotes : ∀ after, quotes ++ after ≠ '\\' :: c :: text) :
    EndsAfter quotes ('\\' :: c :: text) body rest ↔
      ∃ inner, body = '\\' :: c :: inner ∧ EndsAfter quotes text inner rest := by
  constructor
  · intro h
    cases h.isWhole with
    | nil => exact absurd h.text_eq.symm (hquotes rest)
    | next hd => exact absurd (List.cons.inj h.text_eq).1.symm hd
    | @escaped d inner hinner =>
      obtain ⟨rfl, htext⟩ := List.cons.inj (List.cons.inj h.text_eq).2
      refine ⟨inner, rfl, htext, hinner, fun other after hother hwhole => ?_, fun hone before d after hbody hwhole => ?_⟩
      · have hle := h.first ('\\' :: c :: other) after (by rw [hother]; rfl) (.escaped hwhole)
        simpa using hle
      · exact h.unbroken hone ('\\' :: c :: before) d after (by rw [hbody]; rfl) (.escaped hwhole)
  · rintro ⟨inner, rfl, h⟩
    refine ⟨by rw [h.text_eq]; rfl, .escaped h.isWhole, fun other after hother hwhole => ?_,
      fun hone before d after hbody hwhole => ?_⟩
    · cases hwhole with
      | nil => exact absurd hother.symm (hquotes after)
      | next hd => exact absurd (List.cons.inj hother).1.symm hd
      | @escaped d other hwhole =>
        have hle := h.first other after (List.cons.inj (List.cons.inj hother).2).2 hwhole
        simpa using hle
    · cases hwhole with
      | nil => rw [← (List.cons.inj hbody).1]; rfl
      | next hd => exact absurd (List.cons.inj hbody).1.symm hd
      | @escaped e before hwhole => exact h.unbroken hone before d after (List.cons.inj (List.cons.inj hbody).2).2 hwhole

/-- A character that is not escaped belongs to the body, unless the quotes begin with it. Only between three quotes it can
be a line break. -/
theorem endsAfter_next_iff (hc : c ≠ '\\') (hquotes : ¬quotes <+: c :: text) :
    EndsAfter quotes (c :: text) body rest ↔
      (quotes.length = 1 → isLineBreak c = false) ∧ ∃ inner, body = c :: inner ∧ EndsAfter quotes text inner rest := by
  constructor
  · intro h
    cases h.isWhole with
    | nil => exact absurd ⟨rest, h.text_eq.symm⟩ hquotes
    | escaped => exact absurd (List.cons.inj h.text_eq).1 hc
    | @next d inner hd hinner =>
      obtain ⟨rfl, htext⟩ := List.cons.inj h.text_eq
      refine ⟨fun hone => h.unbroken hone [] c inner rfl .nil, inner, rfl, htext, hinner, ?_, ?_⟩
      · intro other after hother hwhole
        have hle := h.first (c :: other) after (by rw [hother]; rfl) (.next hc hwhole)
        simpa using hle
      · intro hone before d after hbody hwhole
        exact h.unbroken hone (c :: before) d after (by rw [hbody]; rfl) (.next hc hwhole)
  · rintro ⟨hbreak, inner, rfl, h⟩
    refine ⟨by rw [h.text_eq]; rfl, .next hc h.isWhole, fun other after hother hwhole => ?_,
      fun hone before d after hbody hwhole => ?_⟩
    · cases hwhole with
      | nil => exact absurd ⟨after, hother.symm⟩ hquotes
      | escaped => exact absurd (List.cons.inj hother).1 hc
      | @next e other he hwhole =>
        have hle := h.first other after (List.cons.inj hother).2 hwhole
        simpa using hle
    · cases hwhole with
      | nil => rw [← (List.cons.inj hbody).1]; exact hbreak hone
      | escaped => exact absurd (List.cons.inj hbody).1 hc
      | @next e before he hwhole => exact h.unbroken hone before d after (List.cons.inj hbody).2 hwhole

/-- A text ends no string if it has ended itself. -/
theorem not_endsAfter_nil (hne : quotes ≠ []) : ¬EndsAfter quotes [] body rest := by
  intro h
  have hnil := h.text_eq
  simp [hne] at hnil

/-- A backslash at the end of a text does not end a string. -/
theorem not_endsAfter_backslash (hquotes : ∀ after, quotes ++ after ≠ ['\\']) : ¬EndsAfter quotes ['\\'] body rest := by
  intro h
  cases h.isWhole with
  | nil => exact hquotes rest h.text_eq.symm
  | next hd => exact absurd (List.cons.inj h.text_eq).1.symm hd
  | escaped => simpa using h.text_eq

end

/-- The quotes that close a string, one or three. -/
def closingQuotes (quote : Char) (triple : Bool) : List Char := if triple then [quote, quote, quote] else [quote]

section

variable {quote : Char} {triple : Bool}

theorem closingQuotes_append_ne {c : Char} (h : c ≠ quote) (after rest : List Char) :
    closingQuotes quote triple ++ after ≠ c :: rest := by
  cases triple <;> exact fun heq => h (List.cons.inj heq).1.symm

theorem length_closingQuotes_iff : (closingQuotes quote triple).length = 1 ↔ triple = false := by
  cases triple <;> simp [closingQuotes]

theorem closingQuotes_prefix_iff {c : Char} {rest : List Char} :
    closingQuotes quote triple <+: c :: rest ↔ c = quote ∧ (triple = true → rest.take 2 = [quote, quote]) := by
  cases triple with
  | false => simp [closingQuotes, List.cons_prefix_cons, eq_comm]
  | true =>
    have hthree := @List.prefix_iff_eq_take _ [quote, quote] rest
    simp only [List.length_cons, List.length_nil, Nat.zero_add, Nat.reduceAdd] at hthree
    simp [closingQuotes, @List.cons_prefix_cons _ quote [quote, quote], hthree, eq_comm]

/-- Another character of the body is one more that has been read. -/
theorem exists_endsAfter_next_iff {c : Char} {done s text rest : List Char} (hc : c ≠ '\\')
    (hopen : ¬(c = quote ∧ (triple = true → s.take 2 = [quote, quote])))
    (hbreak : triple = false → isLineBreak c = false) :
    (∃ body, text = (c :: done).reverse ++ (body ++ closingQuotes quote triple) ∧
        EndsAfter (closingQuotes quote triple) s body rest) ↔
      ∃ body, text = done.reverse ++ (body ++ closingQuotes quote triple) ∧
        EndsAfter (closingQuotes quote triple) (c :: s) body rest := by
  simp only [endsAfter_next_iff hc (mt closingQuotes_prefix_iff.mp hopen)]
  constructor
  · rintro ⟨body, rfl, h⟩
    exact ⟨c :: body, by simp, fun hone => hbreak (length_closingQuotes_iff.mp hone), body, rfl, h⟩
  · rintro ⟨_, rfl, -, inner, rfl, h⟩
    exact ⟨inner, by simp, h⟩

/-- A string is read to the end of its first closing quotes. -/
theorem closeString_eq_some_iff (hquote : isQuote quote = true) {done s text rest : List Char} :
    closeString quote triple done s = some (text, rest) ↔
      ∃ body, text = done.reverse ++ (body ++ closingQuotes quote triple) ∧
        EndsAfter (closingQuotes quote triple) s body rest := by
  have hslash : '\\' ≠ quote := by
    rintro rfl
    cases hquote
  fun_induction closeString quote triple done s with
  | case1 done =>
    have hne : closingQuotes quote triple ≠ [] := by cases triple <;> exact List.cons_ne_nil _ _
    simp [not_endsAfter_nil hne]
  | case2 done c s ih =>
    refine ih.trans ?_
    simp only [endsAfter_escaped_iff fun after => closingQuotes_append_ne hslash after _]
    constructor
    · rintro ⟨body, rfl, h⟩
      exact ⟨'\\' :: c :: body, by simp, body, rfl, h⟩
    · rintro ⟨_, rfl, inner, rfl, h⟩
      exact ⟨inner, by simp, h⟩
  | case3 done s hs =>
    -- the backslash is the last character of the text
    obtain rfl : s = [] := by
      cases s with
      | nil => rfl
      | cons c s => exact (hs c s rfl rfl).elim
    simp [not_endsAfter_backslash fun after => closingQuotes_append_ne hslash after _]
  | case4 done c s _ hc hbreak =>
    obtain ⟨hline, htriple⟩ : isLineBreak c = true ∧ triple = false := by simpa using hbreak
    have hother : c ≠ quote := by
      rintro rfl
      cases hline.symm.trans (isLineBreak_of_isQuote hquote)
    have hnot : ¬((closingQuotes quote triple).length = 1 → isLineBreak c = false) := by
      simp [length_closingQuotes_iff, htriple, hline]
    simp [endsAfter_next_iff hc (mt closingQuotes_prefix_iff.mp (mt And.left hother)), hnot]
  | case5 done s hsingle =>
    have htriple : triple = false := by simpa using hsingle
    have hopening : closingQuotes quote triple <+: quote :: s := closingQuotes_prefix_iff.mpr ⟨rfl, by simp [htriple]⟩
    simp only [endsAfter_iff_of_begins hopening]
    subst htriple
    constructor
    · intro h
      obtain ⟨rfl, rfl⟩ := Prod.mk.inj (Option.some.inj h)
      exact ⟨[], by simp [closingQuotes], rfl, rfl⟩
    · rintro ⟨_, rfl, rfl, hs⟩
      simp [closingQuotes] at hs ⊢
      exact hs
  | case6 done s htriple hthree =>
    have htriple : triple = true := by simpa using htriple
    have hopening : closingQuotes quote triple <+: quote :: s := closingQuotes_prefix_iff.mpr ⟨rfl, fun _ => hthree⟩
    simp only [endsAfter_iff_of_begins hopening]
    subst htriple
    have hs := List.take_append_drop 2 s
    rw [hthree] at hs
    constructor
    · intro h
      obtain ⟨rfl, rfl⟩ := Prod.mk.inj (Option.some.inj h)
      exact ⟨[], by simp [closingQuotes], rfl, (congrArg (quote :: ·) hs).symm⟩
    · rintro ⟨_, rfl, rfl, hrest⟩
      simp [closingQuotes] at hrest ⊢
      simp [hrest]
  | case7 done s htriple hopen _ hc _ ih =>
    have htriple : triple = true := by simpa using htriple
    exact ih.trans (exists_endsAfter_next_iff hc (fun h => hopen (h.2 htriple)) fun _ => isLineBreak_of_isQuote hquote)
  | case8 done c s _ hc hbreak hother ih =>
    refine ih.trans (exists_endsAfter_next_iff hc (fun h => hother h.1) fun hsingle => ?_)
    simpa [hsingle] using hbreak

end

/-! ## Strings -/

/-- The quotes of a string that begins with a quote: three if there are three, else that one. -/
def quotesOf (quote : Char) (after : List Char) : List Char :=
  if [quote, quote, quote] <+: quote :: after then [quote, quote, quote] else [quote]

theorem quotesOf_eq (quote : Char) (after : List Char) :
    quotesOf quote after = closingQuotes quote (decide (after.take 2 = [quote, quote])) := by
  have hthree := @closingQuotes_prefix_iff quote true quote after
  simp only [closingQuotes, if_true, true_and, forall_const] at hthree
  simp [quotesOf, closingQuotes, hthree]

section

variable {mark after : List Char} {quote : Char}

/-- A string consists of its letters, its quotes, a body, and the quotes again where they are first found after the body. -/
theorem stringLiteral?_eq_some_iff (hquote : isQuote quote = true) {text rest : List Char} :
    stringLiteral? mark (mark ++ quote :: after) = some (text, rest) ↔
      ∃ body, text = mark ++ (quotesOf quote after ++ (body ++ quotesOf quote after)) ∧
        EndsAfter (quotesOf quote after) ((quote :: after).drop (quotesOf quote after).length) body rest := by
  rw [stringLiteral?, List.drop_left, quotesOf_eq]
  dsimp only
  split
  · next hthree => simp [hthree, closeString_eq_some_iff hquote, closingQuotes]
  · next hthree => simp [hthree, closeString_eq_some_iff hquote, closingQuotes]

end

/-! ## Texts that are refused for a string -/

/-- At a string the lexer reads the string. -/
theorem next_of_stringPrefix? {st : State} {c : Char} {rest mark : List Char} (h : stringPrefix? (c :: rest) = some mark) :
    next st c rest = match stringLiteral? mark (c :: rest) with
      | some split => .ok (st.reveal .string split)
      | none => .error .unterminatedString := by
  obtain ⟨hmark, quote, after, hs, hquote⟩ := stringPrefix?_eq_some_iff.mp h
  have hc : isWordStart c = true ∨ isQuote c = true := by
    cases mark with
    | nil => exact .inr ((List.cons.inj hs).1 ▸ hquote)
    | cons d mark => exact .inl ((List.cons.inj hs).1 ▸ hmark.isWordStart d List.mem_cons_self)
  have hother {d : Char} (hd : isWordStart d = false ∧ isQuote d = false) : c ≠ d := by
    rintro rfl
    rcases hc with hc | hc
    · cases hd.1.symm.trans hc
    · cases hd.2.symm.trans hc
  have hbreak : isLineBreak c = false := by
    simp [isLineBreak, hother (d := '\n') (by decide +kernel), hother (d := '\r') (by decide +kernel)]
  have hblank : isBlank c = false := by
    simp [isBlank, hother (d := ' ') (by decide +kernel), hother (d := '\t') (by decide +kernel),
      hother (d := '\x0c') (by decide +kernel)]
  have hslash : c ≠ '\\' := hother (by decide +kernel)
  have hhash : c ≠ '#' := hother (by decide +kernel)
  have hcontent : next st c rest = content st c (c :: rest) := by
    simp only [next, hbreak, hblank, hslash, hhash, false_and, if_false, Bool.false_eq_true]
  rw [hcontent]
  cases hsplit : stringLiteral? mark (c :: rest) with
  | some split => simp only [content, h, hsplit]
  | none => simp only [content, h, hsplit]

/-- Whatever a run has found so far belongs to the cut. -/
theorem Run.exists_segments {s left : List Char} {segments : List (Segment Kind)} {last : State}
    (h : Run .initial s segments last left) : ∃ more, (cut s).segments = segments ++ more := by
  obtain ⟨more, hmore, -⟩ := cutFrom_ends last segments.reverse left
  refine ⟨more, ?_⟩
  have hcut := cutFrom_of_run h []
  rw [List.append_nil] at hcut
  rw [cut, hcut, hmore, List.reverse_reverse]

/-- Where a string begins inside a line, the text is refused if and only if the string cannot be taken. -/
theorem tokens_eq_unterminatedString_iff {source : String} {before left mark : List Char} {st : State}
    (h : Reaches source.toList before st left) (hline : st.lineStart = false) (hmark : stringPrefix? left = some mark) :
    tokens source = .error (.unterminatedString (Position.start.advanceBy before)) ↔ stringLiteral? mark left = none := by
  obtain ⟨hsource, segments, hrun⟩ := h
  obtain rfl : Segment.joined segments = before :=
    List.append_cancel_right (hrun.joined_append.trans hsource)
  obtain ⟨c, rest, rfl⟩ : ∃ c rest, left = c :: rest := by
    obtain ⟨-, quote, after, rfl, -⟩ := stringPrefix?_eq_some_iff.mp hmark
    exact List.exists_cons_of_ne_nil (by simp)
  have hnext := @next_of_stringPrefix? st _ _ _ hmark
  cases hstring : stringLiteral? mark (c :: rest) with
  | none =>
    rw [hstring] at hnext
    refine iff_of_true ?_ rfl
    have hcut := cut_of_stuck hrun (.inside hline hnext)
    rw [List.append_nil] at hcut
    exact Cut.tokens_eq_error_iff.mpr ⟨_, congrArg Cut.failure hcut, by rw [hcut]; rfl⟩
  | some split =>
    rw [hstring] at hnext
    refine iff_of_false (fun herror => ?_) nofun
    -- the string has been taken, so whatever the failure is, it comes after it
    obtain ⟨failure, -, hfailure⟩ := Cut.tokens_eq_error_iff.mp herror
    obtain ⟨more, hmore⟩ := (hrun.trans (.single (.inside hline hnext))).exists_segments
    rw [hmore] at hfailure
    cases failure with
    | noViableAlternative | inconsistentDedent => cases hfailure
    | unterminatedString =>
      have hoffset := congrArg Position.offset (LexingError.unterminatedString.inj hfailure)
      rw [List.append_assoc, Segment.joined_append, Position.offset_advanceBy_append] at hoffset
      have hempty : String.ofList (Segment.joined (([⟨.string, split.1⟩] : List (Segment Kind)) ++ more)) = "" :=
        String.utf8ByteSize_eq_zero_iff.mp (by omega)
      have hnil : split.1 = [] ∧ Segment.joined more = [] := by simpa using hempty
      exact stringLiteral?_ne_nil hstring hnil.1

/-- A string is its letters, its quotes, a body and the closing quotes that are first found after the body. Where there are
no such quotes, and only there, the text is refused for the string, at the place where its letters begin. -/
theorem string_exact {mark after : List Char} {quote : Char} (hmark : IsStringPrefix mark) (hquote : isQuote quote = true) :
    (∀ text rest, stringLiteral? mark (mark ++ quote :: after) = some (text, rest) ↔
      ∃ body, text = mark ++ (quotesOf quote after ++ (body ++ quotesOf quote after)) ∧
        EndsAfter (quotesOf quote after) ((quote :: after).drop (quotesOf quote after).length) body rest) ∧
    ∀ source before st, Reaches source.toList before st (mark ++ quote :: after) → st.lineStart = false →
      (tokens source = .error (.unterminatedString (Position.start.advanceBy before)) ↔
        ¬∃ body rest, EndsAfter (quotesOf quote after) ((quote :: after).drop (quotesOf quote after).length) body rest) := by
  refine ⟨fun text rest => stringLiteral?_eq_some_iff hquote, fun source before st hreaches hline => ?_⟩
  have hopening := stringPrefix?_eq_some_iff.mpr ⟨hmark, quote, after, rfl, hquote⟩
  rw [tokens_eq_unterminatedString_iff hreaches hline hopening]
  constructor
  · rintro hnone ⟨body, rest, hends⟩
    cases hnone.symm.trans ((stringLiteral?_eq_some_iff hquote).mpr ⟨body, rfl, hends⟩)
  · intro hnot
    refine Option.eq_none_iff_forall_ne_some.mpr fun split hsplit => ?_
    obtain ⟨body, -, hends⟩ := (stringLiteral?_eq_some_iff hquote).mp hsplit
    exact hnot ⟨body, split.2, hends⟩

/-- Three quotes are closed neither by two nor by three of which the first is escaped, and an escaped quote at the end of
the text closes nothing. -/
theorem string_exact_escapes :
    (stringLiteral? ['r', 'B'] "rB'''a''\\''''.".toList = some ("rB'''a''\\''''".toList, ['.']) ∧
      ∃ body, EndsAfter ['\'', '\'', '\''] "a''\\''''.".toList body ['.']) ∧
    tokens "b'\\'" = .error (.unterminatedString ⟨0, 1, 1⟩) ∧ ¬∃ body rest, EndsAfter ['\''] ['\\', '\''] body rest := by
  refine ⟨?_, ?_⟩
  · have hmark : IsStringPrefix ['r', 'B'] := .inr (by decide)
    have hread : stringLiteral? ['r', 'B'] "rB'''a''\\''''.".toList = some ("rB'''a''\\''''".toList, ['.']) := by cbv
    obtain ⟨body, -, hends⟩ := ((@string_exact _ "''a''\\''''.".toList '\'' hmark rfl).1 _ _).mp hread
    exact ⟨hread, body, hends⟩
  · have hmark : IsStringPrefix ['b'] := .inr (by decide)
    have herror : tokens "b'\\'" = .error (.unterminatedString ⟨0, 1, 1⟩) := by decide +kernel
    -- the line begins without white space
    have hrun : Run .initial ['b', '\'', '\\', '\''] [] (State.initial.enterLine []) ['b', '\'', '\\', '\''] :=
      .step (@Step.line .initial 'b' ['\'', '\\', '\''] [] [] rfl (by decide +kernel)) (.refl _ _)
    have hends := (@string_exact _ ['\\', '\''] '\'' hmark rfl).2 "b'\\'" [] _ ⟨rfl, [], hrun⟩ rfl
    exact ⟨herror, hends.mp herror⟩

end Lexeme.Python
