import Mathlib.Data.List.Forall2
import Lexeme.Proofs.Python.Lookahead
import Lexeme.Proofs.Python.SilentLines
import Lexeme.Proofs.Python.Lossless

/-!
# A final line break

What a line feed after the end of an accepted text changes. The text is cut as before (`Run.fed`), and the line feed
then ends the last line in place of the empty `NEWLINE`, or is a blank (`exists_run_feed`). The one exception is a text
that ends in a zero and the letter of a base: before a line feed the two are one number. So the same tokens are seen
exactly when the text does not end like that (`exists_tokens_feed`).
-/

namespace Lexeme.Python

/-! ## Texts of segments -/

/-- The texts of some segments, without the empty ones. -/
def texts (segments : List (Segment Kind)) : List (List Char) := (segments.map Segment.text).filter (· ≠ [])

theorem texts_append (segments more : List (Segment Kind)) : texts (segments ++ more) = texts segments ++ texts more := by
  simp [texts]

theorem flatten_texts (segments : List (Segment Kind)) : (texts segments).flatten = Segment.joined segments := by
  induction segments with
  | nil => rfl
  | cons s segments ih =>
    rw [Segment.joined_cons, ← ih]
    by_cases h : s.text = [] <;> simp [texts, h]

theorem texts_dedents (n : Nat) : texts (List.replicate n ⟨.dedent, []⟩) = [] := by
  simp [texts]

theorem length_texts_le (segments : List (Segment Kind)) : (texts segments).length ≤ segments.length := by
  simpa [texts] using List.length_filter_le (· ≠ []) (segments.map Segment.text)

theorem length_blankSegments_le (space : List Char) : (blankSegments space).length ≤ 1 := by
  unfold blankSegments
  split <;> simp

/-- No step finds more than one text. -/
theorem Step.length_texts_le {st after : State} {s left : List Char} {found : List (Segment Kind)}
    (h : Step st s found after left) : (texts found).length ≤ 1 := by
  cases h with
  | inside => exact Python.length_texts_le _
  | @line c rest _ levels _ hfound =>
    have hblank := (Python.length_texts_le _).trans (length_blankSegments_le (spanOf isBlank (c :: rest)).1)
    rcases indentation_cases st.levels (spanOf isBlank (c :: rest)).1 (spanOf isBlank (c :: rest)).2 with
      ⟨-, h⟩ | ⟨-, -, h⟩ | ⟨-, -, h⟩
    · obtain ⟨rfl, -⟩ := Prod.mk.inj (h.symm.trans hfound)
      exact hblank
    · obtain ⟨rfl, -⟩ := Prod.mk.inj (h.symm.trans hfound)
      exact Python.length_texts_le _
    · obtain ⟨rfl, -⟩ := Prod.mk.inj (h.symm.trans hfound)
      rwa [texts_append, texts_dedents, List.append_nil]

/-- Whether the last of some texts are a zero and the letter of a base. -/
def EndsBare (texts : List (List Char)) : Prop :=
  ∃ before letter, (radixDigit? letter).isSome ∧ texts = before ++ [['0'], [letter]]

/-! ## Runs -/

/-- How the segments of a whole text are found again when a line feed follows the text. -/
inductive Fed (st : State) (t : List Char) : List (Segment Kind) → State → Prop
  | apart {segments : List (Segment Kind)} {last : State} (hbare : ¬EndsBare (texts segments))
      (h : Run st (t ++ ['\n']) segments last ['\n']) : Fed st t segments last
  /-- A carriage return at the end of the text takes the line feed. -/
  | joined {before : List (Segment Kind)} {s : Segment Kind} {last : State} (hkind : s.kind = .newline ∨ s.kind = .skip)
      (htext : s.text.getLast? = some '\r') (h : Run st (t ++ ['\n']) (before ++ [⟨s.kind, s.text ++ ['\n']⟩]) last []) :
      Fed st t (before ++ [s]) last
  /-- The letter of a base at the end of the text goes to the number. -/
  | merged {before : List (Segment Kind)} {letter : Char} {last : State} (hletter : (radixDigit? letter).isSome)
      (h : Run st (t ++ ['\n']) (before ++ [⟨.number, ['0', letter]⟩]) last ['\n']) :
      Fed st t (before ++ [⟨.number, ['0']⟩, ⟨.name, [letter]⟩]) last

theorem Run.of_nil {st last : State} {left : List Char} {segments : List (Segment Kind)} (h : Run st [] segments last left) :
    segments = [] ∧ last = st ∧ left = [] := by
  cases h with
  | refl => exact ⟨rfl, rfl, rfl⟩
  | step hstep => cases hstep

theorem Run.of_letter {st last : State} {letter : Char} {segments : List (Segment Kind)} (hletter : (radixDigit? letter).isSome)
    (hline : st.lineStart = false) (hshown : st.shown = true) (h : Run st [letter] segments last []) :
    segments = [⟨.name, [letter]⟩] ∧ last = st := by
  cases h with
  | step hstep hrun =>
    cases hstep with
    | line hstart => rw [hline] at hstart; cases hstart
    | inside _ hnext =>
      rw [next_letter hletter] at hnext
      obtain ⟨rfl, rfl, rfl⟩ : _ = _ ∧ _ = _ ∧ _ = _ := by simpa [State.reveal] using hnext
      obtain ⟨rfl, rfl, -⟩ := hrun.of_nil
      exact ⟨rfl, by rw [← hshown]⟩

/-- The beginning of a line is looked at in the same way when a line feed follows the text. -/
theorem Step.line_feed {st after : State} {s left : List Char} {found : List (Segment Kind)} (hline : st.lineStart = true)
    (h : Step st s found after left) :
    Step st (s ++ ['\n']) found after (left ++ ['\n']) ∧ texts found ≠ [['0']] := by
  cases h with
  | inside hinside => rw [hline] at hinside; cases hinside
  | @line c rest _ levels _ hfound =>
    have hspan := spanOf_tail failsAtBreaks_isBlank (c :: rest) atLineEnd_feed
    have hindentation := indentation_tail atLineEnd_feed st.levels (spanOf isBlank (c :: rest)).1 (spanOf isBlank (c :: rest)).2
    refine ⟨?_, fun htexts => ?_⟩
    · have hstep := @Step.line st c (rest ++ ['\n']) found levels hline
      rw [← List.cons_append, hspan] at hstep
      exact hstep (hindentation.trans hfound)
    · -- what is found is white space
      have hjoined := joined_indentation st.levels (spanOf isBlank (c :: rest)).1 (spanOf isBlank (c :: rest)).2
      rw [hfound, ← flatten_texts, htexts] at hjoined
      have hmem : '0' ∈ (c :: rest).takeWhile isBlank := by
        rw [← show _ = (c :: rest).takeWhile isBlank from hjoined]
        simp
      cases List.mem_takeWhile_imp hmem

theorem Fed.step {st mid last : State} {t u : List Char} {found segments : List (Segment Kind)}
    (hstep : Step st (t ++ ['\n']) found mid (u ++ ['\n']))
    (hbare : ¬EndsBare (texts segments) → ¬EndsBare (texts (found ++ segments))) (h : Fed mid u segments last) :
    Fed st t (found ++ segments) last := by
  cases h with
  | apart hnot h => exact .apart (hbare hnot) (.step hstep h)
  | joined hkind htext h =>
    rw [← List.append_assoc]
    refine .joined hkind htext ?_
    rw [List.append_assoc]
    exact .step hstep h
  | merged hletter h =>
    rw [← List.append_assoc]
    refine .merged hletter ?_
    rw [List.append_assoc]
    exact .step hstep h

theorem not_endsBare_append {found segments : List (Segment Kind)} (hfound : (texts found).length ≤ 1)
    (hbare : ∀ letter, (radixDigit? letter).isSome → texts found = [['0']] → texts segments ≠ [[letter]])
    (h : ¬EndsBare (texts segments)) : ¬EndsBare (texts (found ++ segments)) := by
  rintro ⟨before, letter, hletter, heq⟩
  rw [texts_append] at heq
  rcases List.append_eq_append_iff.mp heq with ⟨more, hbefore, hmore⟩ | ⟨more, hfirst, hmore⟩
  · exact h ⟨more, letter, hletter, hmore⟩
  · rcases more with _ | ⟨zero, more⟩
    · exact h ⟨[], letter, hletter, hmore.symm⟩
    · obtain ⟨rfl, hrest⟩ := List.cons.inj hmore
      have hlength := congrArg List.length hfirst
      simp only [List.length_append, List.length_cons] at hlength
      obtain ⟨rfl, rfl⟩ : before = [] ∧ more = [] := by
        constructor <;> apply List.eq_nil_of_length_eq_zero <;> omega
      exact hbare letter hletter hfirst hrest.symm

theorem Run.fed {st last : State} {t left : List Char} {segments : List (Segment Kind)} (h : Run st t segments last left)
    (hleft : left = []) : Fed st t segments last := by
  induction h with
  | refl st s =>
    subst hleft
    exact .apart (by simp [EndsBare, texts]) (.refl st _)
  | @step st mid last t u left found segments hstep hrun ih =>
    have hfed := ih hleft
    subst hleft
    have hlength := hstep.length_texts_le
    cases hline : st.lineStart with
    | true =>
      obtain ⟨hfeed, hzero⟩ := hstep.line_feed hline
      exact hfed.step hfeed (not_endsBare_append hlength fun _ _ htexts => absurd htexts hzero)
    | false =>
      have hjoined := hstep.joined_append
      cases hstep with
      | line hstart => rw [hline] at hstart; cases hstart
      | @inside _ c rest _ segment hline hnext =>
        rcases next_feed hnext with ⟨hbare, hfeed⟩ | ⟨hkind, htext, rfl, hfeed⟩ | ⟨hbare, hn, hfeed⟩
        · refine hfed.step (.inside hline hfeed) (not_endsBare_append hlength fun letter hletter hzero hsegments => hbare ?_)
          refine ⟨letter, hletter, ?_⟩
          rw [← hjoined, ← flatten_texts, hzero, ← hrun.joined_append, ← flatten_texts, hsegments]
          rfl
        · obtain ⟨rfl, rfl, -⟩ := hrun.of_nil
          exact @Fed.joined st (c :: rest) [] segment _ hkind htext (.single (.inside hline hfeed))
        · obtain ⟨letter, hletter, hcons⟩ := hbare
          obtain ⟨rfl, rfl⟩ := List.cons.inj hcons
          obtain ⟨rfl, rfl, rfl⟩ : segment = ⟨.number, ['0']⟩ ∧ mid = { st with shown := true } ∧ u = [letter] := by
            simpa [State.reveal] using hn
          have hinside : ({ st with shown := true } : State).lineStart = false := hline
          obtain ⟨rfl, rfl⟩ := hrun.of_letter hletter hinside rfl
          exact @Fed.merged st ['0', letter] [] letter _ hletter (.single (.inside hline hfeed))

/-! ## The end of the text -/

/-- Whether two segments are the same, but for a line feed at the end of the second one if they end lines. -/
def SameSegment (s s' : Segment Kind) : Prop :=
  s'.kind = s.kind ∧ (s'.text = s.text ∨ s.kind = .newline ∧ s'.text = s.text ++ ['\n'])

/-- Whether the segments that are seen are the same, but for line feeds at the ends of lines. -/
def SameSegments (segments segments' : List (Segment Kind)) : Prop :=
  List.Forall₂ SameSegment (visible segments) (visible segments')

theorem SameSegments.refl (segments : List (Segment Kind)) : SameSegments segments segments :=
  List.forall₂_same.mpr fun _ _ => ⟨rfl, .inl rfl⟩

theorem SameSegments.append {first first' second second' : List (Segment Kind)} (h : SameSegments first first')
    (h' : SameSegments second second') : SameSegments (first ++ second) (first' ++ second') := by
  unfold SameSegments
  rw [visible_append, visible_append]
  exact List.rel_append h h'

theorem AllHidden.sameSegments {found : List (Segment Kind)} {last after : State} (h : AllHidden found)
    (hlevels : after.levels = last.levels) (hshown : after.shown = last.shown) :
    SameSegments (finish last) (found ++ finish after) := by
  have hfinish : finish after = finish last := by
    rw [finish, finish, hlevels, hshown]
  rw [hfinish]
  unfold SameSegments
  rw [visible_append, h.visible_eq_nil, List.nil_append]
  exact SameSegments.refl _

/-- A line feed after the text ends the last line, if there is one to end, and shows nothing else. -/
theorem exists_run_feed {last : State} (h : last.Settled) :
    ∃ found after, Run last ['\n'] found after [] ∧ SameSegments (finish last) (found ++ finish after) := by
  cases hline : last.lineStart with
  | true =>
    have hsilent : IsSilent ['\n'] := by
      intro line hmem
      rw [show ['\n'].splitOnP isLineBreak = [[], []] from rfl] at hmem
      obtain rfl : line = [] := by simpa using hmem
      exact nofun
    obtain ⟨found, after, hrun, hhidden, hlevels, hshown⟩ := run_silent h hline ['\n'] hsilent
    exact ⟨found, after, hrun, hhidden.sameSegments hlevels hshown⟩
  | false =>
    by_cases hends : last.brackets = 0 ∧ last.shown = true
    · have hnext : next last '\n' [] = .ok (⟨.newline, ['\n']⟩, { last with lineStart := true, shown := false }, []) := by
        rw [next, if_pos (by decide), State.endLine, if_pos hends]
        rfl
      refine ⟨_, _, .single (.inside hline hnext), ?_⟩
      rw [finish, finish, if_pos hends.2]
      exact .cons ⟨rfl, .inr ⟨rfl, rfl⟩⟩ (SameSegments.refl (List.replicate last.levels.length _))
    · have htail : AtLineEnd ['\n'] := fun c hc => Option.some.inj hc ▸ rfl
      obtain ⟨found, hrun, hhidden⟩ := run_lineBreak hline hends htail (List.cons_ne_nil _ _)
      exact ⟨found, _, hrun, hhidden.sameSegments rfl rfl⟩

/-- What a line feed after a whole text makes of its segments. -/
theorem Fed.exists_run {segments : List (Segment Kind)} {st last : State} {t : List Char} (h : Fed st t segments last)
    (hsettled : last.Settled) :
    ∃ segments' last', Run st (t ++ ['\n']) segments' last' [] ∧
      (¬EndsBare (texts segments) ∧ SameSegments (segments ++ finish last) (segments' ++ finish last') ∨
        ∃ before letter, (radixDigit? letter).isSome ∧ segments = before ++ [⟨.number, ['0']⟩, ⟨.name, [letter]⟩] ∧
          SameSegments (before ++ [⟨.number, ['0', letter]⟩] ++ finish last) (segments' ++ finish last')) := by
  obtain ⟨found, after, hfound, hsame⟩ := exists_run_feed hsettled
  cases h with
  | apart hbare h =>
    refine ⟨_, _, h.trans hfound, .inl ⟨hbare, ?_⟩⟩
    rw [List.append_assoc]
    exact .append (.refl _) hsame
  | @joined before s _ hkind htext h =>
    refine ⟨_, _, h, .inl ⟨?_, .append (.append (.refl before) ?_) (.refl _)⟩⟩
    · -- the last text is no letter of a base
      rintro ⟨init, letter, hletter, heq⟩
      have hne : s.text ≠ [] := by
        rintro hnil
        rw [hnil] at htext
        cases htext
      have hlast := congrArg List.getLast? heq
      rw [texts_append, show texts [s] = [s.text] by simp [texts, hne], List.getLast?_concat,
        List.getLast?_append_cons, List.getLast?_cons_cons, List.getLast?_singleton, Option.some.injEq] at hlast
      rw [hlast, List.getLast?_singleton, Option.some.injEq] at htext
      rw [htext] at hletter
      cases hletter
    · rcases hkind with hkind | hkind
      · exact (by simp [SameSegments, visible, hkind, SameSegment, Kind.channel])
      · exact (by simp [SameSegments, visible, hkind, Kind.channel, hiddenChannel, defaultChannel])
  | merged hletter h =>
    refine ⟨_, _, h.trans hfound, .inr ⟨_, _, hletter, rfl, ?_⟩⟩
    rw [List.append_assoc _ found]
    exact .append (.refl _) hsame

/-! ## Tokens -/

theorem seen_append (ts us : List Token) : seen (ts ++ us) = seen ts ++ seen us := by
  simp [seen]

/-- Whether two texts show the same tokens, but for line feeds at the ends of lines. -/
def SameTokens (ts us : List Token) : Prop :=
  List.Forall₂ (fun t u => u.category = t.category ∧ (u.text = t.text ∨ symbolOf t = some "NEWLINE" ∧ u.text = t.text ++ "\n"))
    (ts.filter Token.isVisible) (us.filter Token.isVisible)

theorem sameTokens_of_seen {ts us : List Token} {segments segments' : List (Segment Kind)}
    (hts : seen ts = (visible segments).map fun s => (s.kind.category, String.ofList s.text))
    (hus : seen us = (visible segments').map fun s => (s.kind.category, String.ofList s.text))
    (h : SameSegments segments segments') : SameTokens ts us := by
  have hsame : List.Forall₂ (fun p q : Nat × String => q.1 = p.1 ∧
      (q.2 = p.2 ∨ vocabulary.symbol? p.1 = some "NEWLINE" ∧ q.2 = p.2 ++ "\n")) (seen ts) (seen us) := by
    rw [hts, hus, List.forall₂_map_left_iff, List.forall₂_map_right_iff]
    refine h.imp fun s s' hs => ⟨by rw [hs.1], ?_⟩
    rcases hs.2 with htext | ⟨hkind, htext⟩
    · exact .inl (by rw [htext])
    · exact .inr ⟨by rw [hkind, symbol?_newline], by rw [htext, String.ofList_append]⟩
  rwa [seen, seen, List.forall₂_map_left_iff, List.forall₂_map_right_iff] at hsame

/-- Whether a zero, the letter of a base and nothing but empty tokens are the last of some tokens. -/
def EndsInBareBase (ts : List Token) : Prop :=
  ∃ first zero letter last, ts = first ++ zero :: letter :: last ∧ zero.text = "0" ∧
    letter.text ∈ ["x", "X", "o", "O", "b", "B"] ∧ ∀ t ∈ last, t.text = ""

theorem texts_finish (st : State) : texts (finish st) = [] := by
  unfold finish
  rw [texts_append, texts_dedents, List.append_nil]
  split <;> rfl

/-- The texts of tokens are those of their segments. -/
theorem texts_emitted (before : List Char) (segments : List (Segment Kind)) :
    ((Segment.emitted Kind.place before segments).map Token.text).filter (· ≠ "") = (texts segments).map String.ofList := by
  have htexts : (Segment.emitted Kind.place before segments).map Token.text =
      (segments.map Segment.text).map String.ofList := by
    simpa [Function.comp_def] using congrArg (List.map Prod.fst) (map_emitted before segments)
  rw [texts, htexts, List.filter_map]
  simp [Function.comp_def]

theorem EndsInBareBase.endsBare {before : List Char} {segments : List (Segment Kind)}
    (h : EndsInBareBase (Segment.emitted Kind.place before segments)) : EndsBare (texts segments) := by
  obtain ⟨first, zero, letter, last, hts, hzero, hletter, hlast⟩ := h
  obtain ⟨c, hc, hletter⟩ : ∃ c, (radixDigit? c).isSome ∧ letter.text = String.ofList [c] := by
    simp only [List.mem_cons, List.not_mem_nil, or_false] at hletter
    rcases hletter with h | h | h | h | h | h <;> exact ⟨_, rfl, h⟩
  have htexts := texts_emitted before segments
  have hempty : (last.map Token.text).filter (· ≠ "") = [] := by simpa using hlast
  rw [hts, List.map_append, List.map_cons, List.map_cons, List.filter_append, List.filter_cons_of_pos (by simp [hzero]),
    List.filter_cons_of_pos (by simp [hletter]), hempty, hzero, hletter] at htexts
  obtain ⟨init, rest, hsplit, -, hrest⟩ := List.map_eq_append_iff.mp htexts.symm
  have hinjective : Function.Injective String.ofList := fun _ _ => String.ofList_inj.mp
  obtain rfl : rest = [['0'], [c]] := List.map_injective_iff.mpr hinjective hrest
  exact ⟨init, c, hc, hsplit⟩

theorem text_of_mem_emitted_finish (before : List Char) (st : State) :
    ∀ t ∈ Segment.emitted Kind.place before (finish st), t.text = "" := by
  have htexts := texts_emitted before (finish st)
  rw [texts_finish] at htexts
  simpa using htexts

/-- The tokens of a zero and the letter of a base, when nothing follows them. -/
theorem exists_emitted_bareBase (letter : Char) (before : List (Segment Kind)) (st : State) :
    ∃ first zero t last, Segment.emitted Kind.place [] (before ++ [⟨.number, ['0']⟩, ⟨.name, [letter]⟩] ++ finish st) =
        first ++ zero :: t :: last ∧ zero.text = "0" ∧ zero.isVisible = true ∧ t.text = String.ofList [letter] ∧
        t.isVisible = true ∧ (∀ u ∈ last, u.text = "") ∧
        seen first = (visible before).map (fun s => (s.kind.category, String.ofList s.text)) ∧
        seen last = (visible (finish st)).map fun s => (s.kind.category, String.ofList s.text) := by
  rw [Segment.emitted_append, Segment.emitted_append, List.append_assoc]
  exact ⟨_, _, _, _, rfl, rfl, rfl, rfl, rfl, text_of_mem_emitted_finish _ st, seen_emitted _ _, seen_emitted _ _⟩

/-- With a line feed after it, an accepted text is accepted. The same tokens are seen, except where the text ends in a zero
and the letter of a base; then one number takes the place of these two tokens. -/
theorem exists_tokens_feed {source : String} {ts : List Token} (h : tokens source = .ok ts) :
    ∃ us, tokens (source ++ "\n") = .ok us ∧ (SameTokens ts us ↔ ¬EndsInBareBase ts) ∧
      (EndsInBareBase ts → ∃ first zero letter last number, ts = first ++ zero :: letter :: last ∧
        symbolOf number = some "NUMBER" ∧ number.text = zero.text ++ letter.text ∧
        SameTokens (first ++ number :: last) us) := by
  obtain ⟨segments, last, hrun, rfl⟩ := exists_run_of_tokens h
  obtain ⟨segments', last', hrun', hcases⟩ := (hrun.fed rfl).exists_run hrun.settled
  rw [← show (source ++ "\n").toList = source.toList ++ ['\n'] by simp] at hrun'
  refine ⟨_, tokens_of_run hrun', ?_⟩
  rcases hcases with ⟨hbare, hsame⟩ | ⟨before, letter, hletter, rfl, hsame⟩
  · have hnot : ¬EndsInBareBase (Segment.emitted Kind.place [] (segments ++ finish last)) := by
      intro hends
      have hends := hends.endsBare
      rw [texts_append, texts_finish, List.append_nil] at hends
      exact hbare hends
    exact ⟨iff_of_true (sameTokens_of_seen (seen_emitted _ _) (seen_emitted _ _) hsame) hnot, fun hends => absurd hends hnot⟩
  · obtain ⟨first, zero, t, ends, hts, hzero, hvisible, htext, hvisible', hends, hfirst, hlast⟩ :=
      exists_emitted_bareBase letter before last
    rw [hts]
    have hbare : EndsInBareBase (first ++ zero :: t :: ends) := by
      refine ⟨first, zero, t, ends, rfl, hzero, ?_, hends⟩
      rw [htext]
      have hmem := isSome_radixDigit?_iff.mp hletter
      simp only [List.mem_cons, List.not_mem_nil, or_false] at hmem
      rcases hmem with rfl | rfl | rfl | rfl | rfl | rfl <;> simp
    let number : Token := ⟨String.ofList ['0', letter], Kind.number.category, Kind.number.channel, zero.position⟩
    have hmerged : SameTokens (first ++ number :: ends)
        (Segment.emitted Kind.place [] (segments' ++ finish last')) := by
      refine sameTokens_of_seen ?_ (seen_emitted _ _) hsame
      rw [visible_append, visible_append, List.map_append, List.map_append, ← hfirst, ← hlast, seen_append,
        ← List.singleton_append, seen_append, List.append_assoc]
      rfl
    refine ⟨iff_of_false (fun hsame => ?_) (not_not_intro hbare), fun _ => ⟨first, zero, t, ends, number, rfl, ?_, ?_, hmerged⟩⟩
    · have hlength := hsame.length_eq.trans hmerged.length_eq.symm
      have hnumber : number.isVisible = true := rfl
      simp [hvisible, hvisible', hnumber] at hlength
    · show vocabulary.symbol? Kind.number.category = some "NUMBER"
      decide
    · rw [hzero, htext]
      exact @String.ofList_append ['0'] [letter]

/-- `0x` is a zero and a name at the end of a text, and a number before a line feed. -/
theorem exists_tokens_feed_zero_x :
    ∃ ts us, tokens "0x" = .ok ts ∧ tokens "0x\n" = .ok us ∧ ts.map Token.text = ["0", "x", ""] ∧
      us.map Token.text = ["0x", "\n"] ∧ ¬SameTokens ts us := by
  have htexts : (tokens "0x").toOption.map (·.map Token.text) = some ["0", "x", ""] := by decide +kernel
  have hfeed : (tokens "0x\n").toOption.map (·.map Token.text) = some ["0x", "\n"] := by decide +kernel
  cases h : tokens "0x" with
  | error e => rw [h] at htexts; cases htexts
  | ok ts =>
    obtain ⟨us, hus, hsame, -⟩ := exists_tokens_feed h
    rw [h] at htexts
    rw [show "0x\n" = "0x" ++ "\n" from rfl, hus] at hfeed
    have htexts : ts.map Token.text = ["0", "x", ""] := Option.some.inj htexts
    refine ⟨ts, us, rfl, hus, htexts, Option.some.inj hfeed, fun h => hsame.mp h ?_⟩
    obtain ⟨zero, _, rfl, hzero, hrest⟩ := List.map_eq_cons_iff.mp htexts
    obtain ⟨letter, last, rfl, hletter, hlast⟩ := List.map_eq_cons_iff.mp hrest
    refine ⟨[], zero, letter, last, rfl, hzero, by rw [hletter]; simp, fun t ht => ?_⟩
    have hmem := List.mem_map_of_mem (f := Token.text) ht
    rw [hlast] at hmem
    exact List.mem_singleton.mp hmem

end Lexeme.Python
