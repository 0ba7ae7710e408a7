import Lexeme.Proofs.Position
import Lexeme.Proofs.Python.Blocks
import Lexeme.Proofs.Python.Lookahead

/-!
# Where a Python text is refused

A text is refused where a run is stuck: at a character that begins no token, at a string that has no end
(`IsUnended`), or after the white space of a line that has not the width of an open block. The error names that place
(`Blames`).

The end of a string is told without reading on: `Closes` says that the closing quotes are found at some place before
which only whole pieces of the string stand.
-/

namespace Lexeme.Python

/-! ## Strings without end -/

/-- Whether the text after the opening quotes of a string has an end of the string. A backslash keeps the character
after it from meaning anything, and a line break may stand only between three quotes. -/
inductive Closes (quote : Char) (triple : Bool) : List Char → Prop
  | one {rest : List Char} (h : triple = false) : Closes quote triple (quote :: rest)
  | three {rest : List Char} (h : triple = true) : Closes quote triple (quote :: quote :: quote :: rest)
  | escaped {c : Char} {rest : List Char} (h : Closes quote triple rest) : Closes quote triple ('\\' :: c :: rest)
  | next {c : Char} {rest : List Char} (hc : c ≠ '\\') (hbreak : isLineBreak c = true → triple = true)
      (h : Closes quote triple rest) : Closes quote triple (c :: rest)

section

variable {quote : Char} {triple : Bool}

/-- A string that is closed has an end. -/
theorem closes_of_closeString {done s : List Char} {split : Split} (h : closeString quote triple done s = some split) :
    Closes quote triple s := by
  fun_induction closeString quote triple done s with
  | case1 => cases h
  | case2 done c rest ih => exact .escaped (ih h)
  | case3 => cases h
  | case4 => cases h
  | case5 done rest hsingle => exact .one (by simpa using hsingle)
  | case6 done rest htriple hclose =>
    obtain ⟨rest, rfl⟩ : ∃ after, rest = quote :: quote :: after :=
      ⟨rest.drop 2, by simpa [hclose] using (List.take_append_drop 2 rest).symm⟩
    exact .three (by simpa using htriple)
  | case7 done rest htriple _ _ hc _ ih => exact .next hc (fun _ => by simpa using htriple) (ih h)
  | case8 done c rest _ hc hbreak _ ih => exact .next hc (fun hline => by simpa [hline] using hbreak) (ih h)

/-- A string with an end is closed. -/
theorem Closes.isSome_closeString (hquote : isQuote quote = true) {s : List Char} (h : Closes quote triple s)
    (done : List Char) : (closeString quote triple done s).isSome := by
  have hslash : quote ≠ '\\' := by
    rintro rfl
    cases hquote
  have hbreak : isLineBreak quote = false := isLineBreak_of_isQuote hquote
  induction h generalizing done with
  | one h => simp [closeString_cons hslash, hbreak, h]
  | three h => simp [closeString_cons hslash, h]
  | escaped _ ih =>
    rw [closeString]
    exact ih _
  | @next c rest hc hline _ ih =>
    rw [closeString_cons hc, if_neg (by simpa using hline)]
    split_ifs
    · rfl
    · rfl
    · exact ih _
    · exact ih _

theorem closeString_eq_none_iff (hquote : isQuote quote = true) {done s : List Char} :
    closeString quote triple done s = none ↔ ¬Closes quote triple s := by
  constructor
  · intro h hcloses
    have hsome := hcloses.isSome_closeString hquote done
    rw [h] at hsome
    cases hsome
  · intro h
    exact Option.eq_none_iff_forall_ne_some.mpr fun split hsplit => h (closes_of_closeString hsplit)

end

/-- Whether letters may stand before the quote of a string, in either case. -/
def IsStringPrefix (mark : List Char) : Prop := mark = [] ∨ mark.map Char.toLower ∈ stringPrefixes

/-- Whether a text begins with a string that has no end. Three quotes open a string that only three quotes close. -/
inductive IsUnended : List Char → Prop
  | one {mark body : List Char} {quote : Char} (hmark : IsStringPrefix mark) (hquote : isQuote quote = true)
      (hbody : ¬[quote, quote] <+: body) (h : ¬Closes quote false body) : IsUnended (mark ++ quote :: body)
  | three {mark body : List Char} {quote : Char} (hmark : IsStringPrefix mark) (hquote : isQuote quote = true)
      (h : ¬Closes quote true body) : IsUnended (mark ++ quote :: quote :: quote :: body)

/-- What is found before a quote are letters that may stand there. -/
theorem isStringPrefix_of_stringPrefix? {s mark : List Char} (h : stringPrefix? s = some mark) : IsStringPrefix mark := by
  unfold stringPrefix? at h
  split at h
  · exact .inl (Option.some.inj h).symm
  · obtain ⟨letters, hletters, rfl⟩ := Option.map_eq_some_iff.mp h
    have hopens := List.find?_some hletters
    simp only [opensWith, Bool.and_eq_true, decide_eq_true_eq] at hopens
    have hmem := List.mem_of_find?_eq_some hletters
    rw [← hopens.1] at hmem
    exact .inr hmem

/-- A string that cannot be taken has no end. -/
theorem isUnended_of_stringLiteral? {s mark : List Char} (hmark : stringPrefix? s = some mark)
    (h : stringLiteral? mark s = none) : IsUnended s := by
  have hprefix := isStringPrefix_of_stringPrefix? hmark
  have hquote := isQuote_of_stringPrefix? hmark
  have hsplit := List.take_append_drop mark.length s
  rw [stringPrefix?_take hmark] at hsplit
  unfold stringLiteral? at h
  cases hdrop : s.drop mark.length with
  | nil => simp [hdrop] at hquote
  | cons quote body =>
    have hquote : isQuote quote = true := by simpa [hdrop] using hquote
    rw [hdrop] at h hsplit
    rw [← hsplit]
    dsimp only at h
    split at h
    · next hthree =>
      obtain ⟨after, rfl⟩ : ∃ after, body = quote :: quote :: after :=
        ⟨body.drop 2, by simpa [hthree] using (List.take_append_drop 2 body).symm⟩
      exact .three hprefix hquote ((closeString_eq_none_iff hquote).mp h)
    · next hone =>
      have hbody : ¬[quote, quote] <+: body := fun hopen => hone (List.prefix_iff_eq_take.mp hopen).symm
      exact .one hprefix hquote hbody ((closeString_eq_none_iff hquote).mp h)

/-! ## Where a run is stuck -/

theorem content_eq_error {st : State} {c : Char} {s : List Char} {e : Failure} (h : content st c s = .error e) :
    e = .noViableAlternative c ∨ e = .unterminatedString ∧ IsUnended s := by
  unfold content at h
  split at h
  · next hmark =>
    split at h
    · cases h
    · next hnone =>
      obtain rfl := Except.error.inj h
      exact .inr ⟨rfl, isUnended_of_stringLiteral? hmark hnone⟩
  · split_ifs at h
    split at h
    · cases h
    · exact .inl (Except.error.inj h).symm

/-- Inside a line a run is stuck at the character that it names, or at a string without end. -/
theorem next_eq_error {st : State} {c : Char} {rest : List Char} {e : Failure} (h : next st c rest = .error e) :
    e = .noViableAlternative c ∨ e = .unterminatedString ∧ IsUnended (c :: rest) := by
  unfold next at h
  split_ifs at h
  exact content_eq_error h

/-- Whether a run over a text comes to what is left of it after a beginning. -/
def Reaches (source before : List Char) (st : State) (left : List Char) : Prop :=
  source = before ++ left ∧ ∃ segments, Run .initial source segments st left

theorem Run.reaches {source left : List Char} {segments : List (Segment Kind)} {st : State}
    (h : Run .initial source segments st left) : Reaches source (Segment.joined segments) st left :=
  ⟨h.joined_append.symm, segments, h⟩

/-- What an error says of a text: a run over the text comes to the place that the error names, and cannot go on for the
reason that it names. -/
inductive Blames (source : List Char) : LexingError → Prop
  /-- The error names the character that stands at its place. -/
  | noViableAlternative {before rest : List Char} {st : State} {c : Char} {p : Position}
      (h : Reaches source before st (c :: rest)) (hp : p.IsAfter before) :
      Blames source (.noViableAlternative p (String.singleton c))
  /-- The string begins at the place of the error, with the letters before its quotes. -/
  | unterminatedString {before string : List Char} {st : State} {p : Position} (h : Reaches source before st string)
      (hstring : IsUnended string) (hp : p.IsAfter before) : Blames source (.unterminatedString p)
  /-- A line begins after `before`, and its first character that is not white space stands at the place of the error. The
  line is less wide than the innermost block, and not as wide as any other. -/
  | inconsistentDedent {before space rest : List Char} {st : State} {c : Char} {p : Position}
      (h : Reaches source before st (space ++ c :: rest)) (hline : st.lineStart = true)
      (hbefore : ∀ b ∈ before.getLast?, isLineBreak b = true) (hspace : ∀ b ∈ space, isBlank b = true)
      (hc : isBlank c = false ∧ isLineBreak c = false ∧ c ≠ '#')
      (hwidth : indentWidth space < st.width ∧ indentWidth space ∉ st.levels ++ [0]) (hp : p.IsAfter (before ++ space)) :
      Blames source (.inconsistentDedent p)

/-- The text before the beginning of a line ends in a line break, if there is any. -/
theorem isLineBreak_of_endsLine {segments : List (Segment Kind)} (h : EndsLine segments) :
    ∀ b ∈ (Segment.joined segments).getLast?, isLineBreak b = true := by
  intro b hb
  rcases List.eq_nil_or_concat segments with rfl | ⟨init, s, rfl⟩
  · cases hb
  · have hs : IsLineEnd s.text := h s (by simp)
    rw [List.concat_eq_append, Segment.joined_append, Segment.joined_cons, Segment.joined_nil, List.append_nil,
      List.getLast?_append] at hb
    rcases hs with hs | hs | hs <;>
    · rw [hs] at hb
      obtain rfl := Option.some.inj hb
      rfl

/-- A line with a token is its white space, and then the first character of the token. -/
theorem exists_cons_afterSpace {left : List Char} (h : isSilentRest (afterSpace left) = false) :
    ∃ c rest, left = leadingSpace left ++ c :: rest ∧ isBlank c = false ∧ isLineBreak c = false ∧ c ≠ '#' := by
  cases hafter : afterSpace left with
  | nil => simp [isSilentRest, hafter] at h
  | cons c rest =>
    have hblank : isBlank c = false := by
      have hhead := List.head?_dropWhile_not isBlank left
      rw [show left.dropWhile isBlank = c :: rest from hafter] at hhead
      simpa using hhead
    refine ⟨c, rest, ?_, hblank, by simpa [isSilentRest, hafter] using h⟩
    rw [← hafter]
    exact (spanOf_append isBlank left).symm

/-- The error of a text says what is wrong with it, and where. -/
theorem blames_of_tokens {source : String} {e : LexingError} (h : tokens source = .error e) : Blames source.toList e := by
  obtain ⟨failure, hfailure, rfl⟩ := Cut.tokens_eq_error_iff.mp h
  have hends := cut_ends source.toList
  rw [hfailure] at hends
  generalize (cut source.toList).segments = all at hends
  cases hends with
  | @stuck segments found st left _ hrun hstuck =>
    rw [Segment.joined_append]
    by_cases hdedent : failure = .inconsistentDedent
    · subst hdedent
      obtain ⟨hline, hrest, hwidth, hlevels, rfl⟩ := (stuck_inconsistentDedent_iff (descending_of_run hrun)).mp hstuck
      obtain ⟨c, rest, hleft, hc⟩ := exists_cons_afterSpace hrest
      rw [joined_closing]
      refine .inconsistentDedent (hleft ▸ hrun.reaches) hline (isLineBreak_of_endsLine (hrun.endsLine hline)) ?_ hc
        ⟨hwidth, hlevels⟩ (Position.isAfter_advanceBy _)
      exact fun b hb => List.mem_takeWhile_imp hb
    · cases hstuck with
      | line => exact absurd rfl hdedent
      | inside hline hnext =>
        rw [Segment.joined_nil, List.append_nil]
        rcases next_eq_error hnext with rfl | ⟨rfl, hstring⟩
        · exact .noViableAlternative hrun.reaches (Position.isAfter_advanceBy _)
        · exact .unterminatedString hrun.reaches hstring (Position.isAfter_advanceBy _)

end Lexeme.Python
