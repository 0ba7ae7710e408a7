import Mathlib.Data.List.Forall2
import Lexeme.Proofs.Python.CarriageReturns

/-!
# Lines that end in a carriage return and a line feed

A text without carriage returns and the same text with one before every line feed are cut side by side: each step of the
one run is a step of the other, with the same state, until a string that one quote opens goes on in a new line
(`step_crlf`). There the second text is stuck, since the backslash before the line break only keeps the carriage return in
the string. So the segments are the same up to the first such string (`cut_crlf`), and the two texts have the same outcome
exactly when there is none, or the first text is refused for a string without an end anyway
(`sameOutcome_withReturns_iff`).
-/

namespace Lexeme.Python

/-! ## The beginning of a line -/

theorem isSilentRest_crlf (rest : List Char) : isSilentRest (crlf rest) = isSilentRest rest := by
  cases rest with
  | nil => rfl
  | cons c rest =>
    by_cases hc : c = '\n'
    · subst hc
      rfl
    · rw [crlf_cons hc]
      rfl

theorem indentation_crlf (levels : List Nat) (space rest : List Char) :
    indentation levels space (crlf rest) = indentation levels space rest := by
  have hsilent := isSilentRest_crlf rest
  unfold isSilentRest at hsilent
  simp only [indentation, hsilent]

/-- White space at the beginning of a line has no line feed. -/
theorem crlf_spanOf_isBlank (s : List Char) : crlf (spanOf isBlank s).1 = (spanOf isBlank s).1 :=
  crlf_eq_self fun hfeed => absurd (List.mem_takeWhile_imp hfeed) (by decide)

/-- Whether some segments are no strings and have no line feeds. -/
def Plain (segments : List (Segment Kind)) : Prop := ∀ s ∈ segments, s.kind ≠ .string ∧ s.crlf = s

theorem Plain.map_crlf {segments : List (Segment Kind)} (h : Plain segments) : segments.map Segment.crlf = segments :=
  (List.map_congr_left fun s hs => (h s hs).2).trans (List.map_id segments)

theorem plain_indentation {levels : List Nat} {space rest : List Char} (hspace : crlf space = space) :
    Plain (indentation levels space rest).1 := by
  intro s hs
  obtain ⟨hkind, htext⟩ := of_mem_indentation hs
  refine ⟨by rcases hkind with h | h | h <;> simp [h], ?_⟩
  obtain ⟨kind, text⟩ := s
  rcases htext with rfl | rfl
  · exact congrArg (Segment.mk kind) hspace
  · rfl

theorem Plain.isContinued {segments : List (Segment Kind)} (h : Plain segments) : ∀ s ∈ segments, isContinued s = false :=
  fun s hs => isContinued_of_kind (h s hs).1

/-- Nothing at the beginning of a line changes. -/
theorem line_crlf {levels levels' : List Nat} {c c' : Char} {rest rest' : List Char} {found : List (Segment Kind)}
    {consistent : Bool} (hcons : crlf (c :: rest) = c' :: rest')
    (h : indentation levels (spanOf isBlank (c :: rest)).1 (spanOf isBlank (c :: rest)).2 = (found, levels', consistent)) :
    Plain found ∧
      indentation levels (spanOf isBlank (c' :: rest')).1 (spanOf isBlank (c' :: rest')).2 = (found, levels', consistent) ∧
      (spanOf isBlank (c' :: rest')).2 = crlf (spanOf isBlank (c :: rest)).2 := by
  have hspace := crlf_spanOf_isBlank (c :: rest)
  have hspan : spanOf isBlank (c' :: rest') = (spanOf isBlank (c :: rest)).crlf := by
    rw [← hcons, spanOf_crlf failsAtBreaks_isBlank]
  have hplain : Plain (indentation levels (spanOf isBlank (c :: rest)).1 (spanOf isBlank (c :: rest)).2).1 :=
    plain_indentation hspace
  rw [h] at hplain
  refine ⟨hplain, ?_, by rw [hspan]; rfl⟩
  rw [hspan, Split.crlf, hspace, indentation_crlf, h]

/-! ## Steps -/

/-- A step of the one run is a step of the other, or the other is stuck at a string that goes on in a new line. -/
theorem step_crlf {st after : State} {s left : List Char} {found : List (Segment Kind)} (h : Step st s found after left)
    (hs : '\r' ∉ s) :
    ((∀ x ∈ found, isContinued x = false) ∧ Step st (crlf s) (found.map Segment.crlf) after (crlf left)) ∨
      ∃ x, found = [x] ∧ isContinued x = true ∧ Stuck st (crlf s) [] .unterminatedString := by
  cases h with
  | @line c rest _ levels hline hfound =>
    obtain ⟨c', rest', hcons⟩ := exists_cons_crlf c rest
    obtain ⟨hplain, hfound', hleft⟩ := line_crlf hcons hfound
    refine .inl ⟨hplain.isContinued, ?_⟩
    rw [hplain.map_crlf, hcons, ← hleft]
    exact .line hline hfound'
  | @inside _ c rest _ segment hline hnext =>
    obtain ⟨c', rest', hcons, hnext'⟩ := next_crlf st hs
    rw [hnext, crlfNext] at hnext'
    rw [hcons]
    cases hcontinued : isContinued segment with
    | true =>
      rw [if_pos hcontinued] at hnext'
      exact .inr ⟨segment, rfl, hcontinued, .inside hline hnext'⟩
    | false =>
      rw [if_neg (by simp [hcontinued])] at hnext'
      exact .inl ⟨List.forall_mem_singleton.mpr hcontinued, .inside hline hnext'⟩

/-- Where the one run is stuck, the other is. -/
theorem stuck_crlf {last : State} {left : List Char} {found : List (Segment Kind)} {e : Failure} (h : Stuck last left found e)
    (hleft : '\r' ∉ left) : Plain found ∧ Stuck last (crlf left) found e := by
  cases h with
  | @line c rest _ _ hline hfound =>
    obtain ⟨c', rest', hcons⟩ := exists_cons_crlf c rest
    obtain ⟨hplain, hfound', -⟩ := line_crlf hcons hfound
    rw [hcons]
    exact ⟨hplain, .line hline hfound'⟩
  | @inside c rest _ hline hnext =>
    obtain ⟨c', rest', hcons, hnext'⟩ := next_crlf last hleft
    rw [hnext] at hnext'
    rw [hcons]
    exact ⟨List.forall_mem_nil _, .inside hline hnext'⟩

/-! ## Runs -/

/-- The segments before the first string that goes on in a new line. -/
def beforeContinued (segments : List (Segment Kind)) : List (Segment Kind) := segments.takeWhile (!isContinued ·)

theorem beforeContinued_append {segments more : List (Segment Kind)} (h : ∀ x ∈ segments, isContinued x = false) :
    beforeContinued (segments ++ more) = segments ++ beforeContinued more :=
  List.takeWhile_append_of_pos fun x hx => by simp [h x hx]

theorem beforeContinued_append_of_mem {segments : List (Segment Kind)} (h : ∃ x ∈ segments, isContinued x = true)
    (more : List (Segment Kind)) : beforeContinued (segments ++ more) = beforeContinued segments := by
  rw [beforeContinued, List.takeWhile_append, if_neg]
  · rfl
  · intro hlength
    obtain ⟨x, hx, hcontinued⟩ := h
    have hall := List.takeWhile_eq_self_iff.mp ((List.takeWhile_prefix _).eq_of_length hlength) x hx
    simp [hcontinued] at hall

/-- The two runs go side by side to the end, or the second is stuck at the first string that goes on in a new line. -/
theorem run_crlf {st last : State} {s left : List Char} {segments : List (Segment Kind)} (h : Run st s segments last left)
    (hs : '\r' ∉ s) :
    ((∀ x ∈ segments, isContinued x = false) ∧ Run st (crlf s) (segments.map Segment.crlf) last (crlf left)) ∨
      (∃ x ∈ segments, isContinued x = true) ∧
        ∃ mid t, Run st (crlf s) ((beforeContinued segments).map Segment.crlf) mid t ∧ Stuck mid t [] .unterminatedString := by
  induction h with
  | refl st s => exact .inl ⟨List.forall_mem_nil _, .refl st (crlf s)⟩
  | @step st mid last s t u found segments hstep _ ih =>
    have ht : '\r' ∉ t := by
      rw [← hstep.joined_append] at hs
      exact fun hmem => hs (List.mem_append_right _ hmem)
    rcases step_crlf hstep hs with ⟨hfound, hstep'⟩ | ⟨x, rfl, hx, hstuck⟩
    · rcases ih ht with ⟨hsegments, hrun⟩ | ⟨⟨x, hx, hcontinued⟩, stop, rest, hrun, hstuck⟩
      · refine .inl ⟨List.forall_mem_append.mpr ⟨hfound, hsegments⟩, ?_⟩
        rw [List.map_append]
        exact .step hstep' hrun
      · refine .inr ⟨⟨x, List.mem_append_right _ hx, hcontinued⟩, stop, rest, ?_, hstuck⟩
        rw [beforeContinued_append hfound, List.map_append]
        exact .step hstep' hrun
    · refine .inr ⟨⟨x, List.mem_append_left _ (List.mem_singleton_self x), hx⟩, st, crlf s, ?_, hstuck⟩
      rw [beforeContinued, List.singleton_append, List.takeWhile_cons_of_neg (by simp [hx])]
      exact .refl st (crlf s)

theorem plain_finish (st : State) : Plain (finish st) := by
  intro s hs
  obtain ⟨hkind, htext⟩ := of_mem_finish hs
  refine ⟨by rcases hkind with h | h <;> simp [h], ?_⟩
  obtain ⟨kind, text⟩ := s
  obtain rfl : text = [] := htext
  rfl

/-- What becomes of a cut with a carriage return before every line feed: it ends at the first string that goes on in a new
line after one quote opened it, because that string has no end any more. -/
def crlfCut (found : Cut Kind Failure) : Cut Kind Failure :=
  ⟨(beforeContinued found.segments).map Segment.crlf,
    if found.segments.any isContinued then some .unterminatedString else found.failure⟩

/-- Segments after a run, at the end of the text or where the run is stuck, stay as they are if none before them goes on in a
new line. -/
theorem crlfCut_of_plain {segments more : List (Segment Kind)} (h : ∀ x ∈ segments, isContinued x = false)
    (hmore : Plain more) (failure : Option Failure) :
    crlfCut ⟨segments ++ more, failure⟩ = ⟨segments.map Segment.crlf ++ more, failure⟩ := by
  have hany : (segments ++ more).any isContinued = false :=
    List.any_eq_false.mpr fun x hx => by simp [List.forall_mem_append.mpr ⟨h, hmore.isContinued⟩ x hx]
  have hall : beforeContinued more = more := List.takeWhile_eq_self_iff.mpr fun x hx => by simp [hmore.isContinued x hx]
  rw [crlfCut, beforeContinued_append h, hall, hany, List.map_append, hmore.map_crlf]
  rfl

theorem crlfCut_of_mem {segments : List (Segment Kind)} (h : ∃ x ∈ segments, isContinued x = true)
    (more : List (Segment Kind)) (failure : Option Failure) :
    crlfCut ⟨segments ++ more, failure⟩ = ⟨(beforeContinued segments).map Segment.crlf, some .unterminatedString⟩ := by
  have hany : (segments ++ more).any isContinued = true := by
    rw [List.any_append, List.any_eq_true.mpr h, Bool.true_or]
  rw [crlfCut, beforeContinued_append_of_mem h, hany]
  rfl

/-- A text is cut in the same way with a carriage return before every line feed, but for strings that go on in a new line. -/
theorem cut_crlf {s : List Char} (hs : '\r' ∉ s) : cut (crlf s) = crlfCut (cut s) := by
  have hends := cut_ends s
  generalize cut s = found at hends
  obtain ⟨segments, failure⟩ := found
  dsimp only at hends
  cases hends with
  | @finished segments last hrun =>
    rcases run_crlf hrun hs with ⟨hplain, hrun'⟩ | ⟨hcontinued, mid, t, hrun', hstuck⟩
    · rw [crlfCut_of_plain hplain (plain_finish last), cut_of_run hrun']
    · rw [crlfCut_of_mem hcontinued, cut_of_stuck hrun' hstuck, List.append_nil]
  | @stuck segments found last left e hrun hstuck =>
    have hleft : '\r' ∉ left := by
      rw [← hrun.joined_append] at hs
      exact fun hmem => hs (List.mem_append_right _ hmem)
    rcases run_crlf hrun hs with ⟨hplain, hrun'⟩ | ⟨hcontinued, mid, t, hrun', hstuck'⟩
    · obtain ⟨hfound, hstuck'⟩ := stuck_crlf hstuck hleft
      rw [crlfCut_of_plain hplain hfound, cut_of_stuck hrun' hstuck']
    · rw [crlfCut_of_mem hcontinued, cut_of_stuck hrun' hstuck', List.append_nil]

/-! ## Tokens -/

/-- A source with a carriage return before every line feed. -/
def withReturns (source : String) : String := String.ofList (crlf source.toList)

/-- Whether two sources have the same outcome, but for carriage returns before line feeds: the same tokens, or errors of the
same kind. -/
def SameOutcome : Except LexingError (List Token) → Except LexingError (List Token) → Prop
  | .ok ts, .ok us =>
    List.Forall₂ (fun t u => u.category = t.category ∧ u.channel = t.channel ∧ u.text = withReturns t.text) ts us
  | .error e, .error e' => e'.code = e.code
  | _, _ => False

theorem withReturns_ofList (s : List Char) : withReturns (String.ofList s) = String.ofList (crlf s) := by
  rw [withReturns, String.toList_ofList]

/-- The tokens of segments with carriage returns are the tokens of the segments, with carriage returns. -/
theorem forall₂_emitted_crlf (before before' : List Char) (segments : List (Segment Kind)) :
    List.Forall₂ (fun t u => u.category = t.category ∧ u.channel = t.channel ∧ u.text = withReturns t.text)
      (Segment.emitted Kind.place before segments)
      (Segment.emitted Kind.place before' (segments.map Segment.crlf)) := by
  induction segments generalizing before before' with
  | nil => exact .nil
  | cons s segments ih => exact .cons ⟨rfl, rfl, (withReturns_ofList s.text).symm⟩ (ih _ _)

theorem joined_map_crlf (segments : List (Segment Kind)) :
    Segment.joined (segments.map Segment.crlf) = crlf (Segment.joined segments) := by
  induction segments with
  | nil => rfl
  | cons s segments ih => rw [List.map_cons, Segment.joined_cons, Segment.joined_cons, ih, crlf_append]; rfl

/-- Cuts with the same segments and the same failure have the same outcome. -/
theorem sameOutcome_map_crlf (segments : List (Segment Kind)) (failure : Option Failure) :
    SameOutcome (Cut.tokens ⟨segments, failure⟩ Kind.place Failure.error)
      (Cut.tokens ⟨segments.map Segment.crlf, failure⟩ Kind.place Failure.error) := by
  cases failure with
  | none =>
    simp only [Cut.tokens, Segment.tokens_eq_emitted]
    exact forall₂_emitted_crlf [] [] segments
  | some e => cases e <;> rfl

/-- Of all outcomes only a string without an end is the same as a string without an end. -/
theorem sameOutcome_unterminatedString_iff {outcome : Except LexingError (List Token)} {p : Position} :
    SameOutcome outcome (.error (.unterminatedString p)) ↔ ∃ q, outcome = .error (.unterminatedString q) := by
  cases outcome with
  | ok ts => exact ⟨False.elim, fun ⟨_, h⟩ => nomatch h⟩
  | error e => cases e <;> simp [SameOutcome, LexingError.code]

/-- A source without carriage returns has the same outcome with one before every line feed exactly when no string in it goes
on in a new line after one quote opened it, or it is refused for a string without an end as it is. Otherwise the first such
string has no end any more. -/
theorem sameOutcome_withReturns_iff {source : String} (h : '\r' ∉ source.toList) :
    (SameOutcome (tokens source) (tokens (withReturns source)) ↔
      (∀ s ∈ (cut source.toList).segments, isContinued s = false) ∨
        ∃ p, tokens source = .error (.unterminatedString p)) ∧
    ∀ before s after, (cut source.toList).segments = before ++ s :: after → (∀ x ∈ before, isContinued x = false) →
      isContinued s = true →
      tokens (withReturns source) =
        .error (.unterminatedString (Position.start.advanceBy (crlf (Segment.joined before)))) := by
  have htokens : tokens (withReturns source) = (crlfCut (cut source.toList)).tokens Kind.place Failure.error := by
    rw [tokens, withReturns, String.toList_ofList, cut_crlf h]
  have hstop : ∀ before s after, (cut source.toList).segments = before ++ s :: after →
      (∀ x ∈ before, isContinued x = false) → isContinued s = true →
      tokens (withReturns source) =
        .error (.unterminatedString (Position.start.advanceBy (crlf (Segment.joined before)))) := by
    intro before s after hsegments hbefore hs
    have hstopped : beforeContinued (before ++ s :: after) = before := by
      rw [beforeContinued_append hbefore, beforeContinued, List.takeWhile_cons_of_neg (by simp [hs]), List.append_nil]
    have hcut : crlfCut (cut source.toList) = ⟨before.map Segment.crlf, some .unterminatedString⟩ := by
      rw [crlfCut, hsegments, hstopped, List.any_eq_true.mpr ⟨s, by simp, hs⟩]
      rfl
    rw [htokens, hcut, ← joined_map_crlf]
    exact Cut.tokens_eq_error_iff.mpr ⟨_, rfl, rfl⟩
  refine ⟨?_, hstop⟩
  by_cases hplain : ∀ s ∈ (cut source.toList).segments, isContinued s = false
  · refine iff_of_true ?_ (.inl hplain)
    have hcut : crlfCut ⟨(cut source.toList).segments ++ [], (cut source.toList).failure⟩ = _ :=
      crlfCut_of_plain hplain (List.forall_mem_nil _) _
    rw [List.append_nil, List.append_nil] at hcut
    rw [htokens, hcut]
    exact sameOutcome_map_crlf _ _
  · cases hfind : (cut source.toList).segments.find? isContinued with
    | none => exact absurd (fun s hs => by simpa using List.find?_eq_none.mp hfind s hs) hplain
    | some s =>
      obtain ⟨hs, before, after, hsegments, hbefore⟩ := List.find?_eq_some_iff_append.mp hfind
      rw [hstop before s after hsegments (fun x hx => by simpa using hbefore x hx) hs, sameOutcome_unterminatedString_iff,
        or_iff_right hplain]

/-- A backslash and a line feed in a string between two quotes: with a carriage return before the line feed the string has no
end. -/
theorem sameOutcome_withReturns_iff_backslash :
    '\r' ∉ "'a\\\nb'".toList ∧ withReturns "'a\\\nb'" = "'a\\\r\nb'" ∧
      (tokens "'a\\\nb'").toOption.map (·.map Token.text) = some ["'a\\\nb'", ""] ∧
      tokens "'a\\\r\nb'" = .error (.unterminatedString .start) ∧
      ¬SameOutcome (tokens "'a\\\nb'") (tokens (withReturns "'a\\\nb'")) := by
  have hsource : '\r' ∉ "'a\\\nb'".toList := by decide
  have hreturns : withReturns "'a\\\nb'" = "'a\\\r\nb'" := by decide
  have htexts : (tokens "'a\\\nb'").toOption.map (·.map Token.text) = some ["'a\\\nb'", ""] := by decide +kernel
  have hsegments : (cut "'a\\\nb'".toList).segments = [] ++ ⟨.string, "'a\\\nb'".toList⟩ :: [⟨.newline, []⟩] := by decide +kernel
  have hcontinued : isContinued ⟨.string, "'a\\\nb'".toList⟩ = true := by decide
  obtain ⟨hiff, hstop⟩ := sameOutcome_withReturns_iff hsource
  have herror := hstop [] _ _ hsegments (List.forall_mem_nil _) hcontinued
  refine ⟨hsource, hreturns, htexts, hreturns ▸ herror, fun hsame => ?_⟩
  rcases hiff.mp hsame with hplain | ⟨p, hp⟩
  · rw [hsegments] at hplain
    rw [hplain _ List.mem_cons_self] at hcontinued
    cases hcontinued
  · rw [hp] at htexts
    cases htexts

end Lexeme.Python
