import Lexeme.Proofs.Python.Blocks
import Lexeme.Proofs.Python.Lookahead

/-!
# Lines that are put in

A line without tokens that is put in where a line begins changes nothing that is seen (`sameShown_insertLine`).

What is found before a line break does not depend on what follows the line break (`next_break`). By induction a run up to the
beginning of a line is a run over every text that begins in the same way (`Run.replace`), so the line that is put in is
reached in the same state as the rest of the text was. It shows nothing and leaves the state as it is
(`run_silentLine`), and from there the rest is cut as before.
-/

namespace Lexeme.Python

/-! ## Strings that a line break is part of -/

theorem length_lt_of_closeString {quote : Char} {triple : Bool} {done s : List Char} {split : Split}
    (h : closeString quote triple done s = some split) : split.2.length < s.length := by
  fun_induction closeString quote triple done s with
  | case1 => cases h
  | case2 _ _ _ ih => exact Nat.lt_succ_of_lt (Nat.lt_succ_of_lt (ih h))
  | case3 => cases h
  | case4 => cases h
  | case5 => simp [← Option.some.inj h]
  | case6 =>
    rw [← Option.some.inj h]
    simp only [List.length_drop, List.length_cons]
    omega
  | case7 _ _ _ _ _ _ _ ih => exact Nat.lt_succ_of_lt (ih h)
  | case8 _ _ _ _ _ _ _ ih => exact Nat.lt_succ_of_lt (ih h)

/-- A string that is still open at a line break ends after it. -/
theorem length_lt_of_open {quote : Char} {triple : Bool} {done s tail : List Char} {split : Split}
    (hquote : isLineBreak quote = false) (htail : AtLineEnd tail) (hopen : closeString quote triple done s = none)
    (h : closeString quote triple done (s ++ tail) = some split) : split.2.length < tail.length := by
  fun_induction closeString quote triple done s with
  | case1 => exact length_lt_of_closeString h
  | case2 done c rest ih =>
    rw [List.cons_append, List.cons_append, closeString] at h
    exact ih hopen h
  | case3 done rest hlast =>
    cases rest with
    | cons c rest => exact (hlast c rest rfl rfl).elim
    | nil =>
      cases tail with
      | nil =>
        rw [List.append_nil, closeString_backslash] at h
        cases h
      | cons c rest =>
        -- the backslash takes the line break
        rw [List.cons_append, List.nil_append, closeString] at h
        exact Nat.lt_succ_of_lt (length_lt_of_closeString h)
  | case4 done c rest _ hc hbreak =>
    rw [List.cons_append, closeString_cons hc, if_pos hbreak] at h
    cases h
  | case5 => cases hopen
  | case6 => cases hopen
  | case7 done rest htriple htwo _ hc hbreak ih =>
    rw [List.cons_append, closeString_cons hc, if_neg hbreak, if_pos rfl, if_neg htriple,
      if_neg (mt (take_two_tail hquote htail rest).mp htwo)] at h
    exact ih hopen h
  | case8 done c rest _ hc hbreak hother ih =>
    rw [List.cons_append, closeString_cons hc, if_neg hbreak, if_neg hother] at h
    exact ih hopen h

theorem length_lt_of_stringLiteral? {mark s tail : List Char} {split : Split} (htail : AtLineEnd tail)
    (hmark : stringPrefix? s = some mark) (hopen : stringLiteral? mark s = none)
    (h : stringLiteral? mark (s ++ tail) = some split) : split.2.length < tail.length := by
  have hquote := isQuote_of_stringPrefix? hmark
  cases hdrop : s.drop mark.length with
  | nil => simp [hdrop] at hquote
  | cons quote body =>
    have hquote : isLineBreak quote = false := isLineBreak_of_isQuote (by simpa [hdrop] using hquote)
    have hlength : mark.length ≤ s.length := by
      by_contra hlength
      rw [List.drop_eq_nil_of_le (by omega)] at hdrop
      cases hdrop
    simp only [stringLiteral?, hdrop] at hopen
    simp only [stringLiteral?, List.drop_append_of_le_length hlength, hdrop, List.cons_append,
      take_two_tail hquote htail] at h
    split at hopen
    · next hthree =>
      rw [if_pos hthree, drop_two_append hthree] at h
      exact length_lt_of_open hquote htail hopen h
    · next hone =>
      rw [if_neg hone] at h
      exact length_lt_of_open hquote htail hopen h

/-! ## What is found before a line break -/

section

variable {d : Char} {t : List Char}

/-- A line break is taken whatever follows the next one. -/
theorem lineBreak_break {s : List Char} (h : t.length < (lineBreak (s ++ d :: t)).2.length) :
    ∃ split : Split, ∀ t', lineBreak (s ++ d :: t') = split.before (d :: t') := by
  have hshort (c : Char) (rest : List Char) : (lineBreak (c :: rest)).2.length ≤ rest.length :=
    Nat.le_of_lt_succ (length_lineBreak_lt (List.cons_ne_nil c rest))
  rcases s with _ | ⟨c, _ | ⟨e, s⟩⟩
  · exact absurd (hshort d t) (by simpa using h)
  · by_cases hcd : c = '\r' ∧ d = '\n'
    · obtain ⟨rfl, rfl⟩ := hcd
      simp [lineBreak] at h
    · exact ⟨([c], []), fun t' => lineBreak_cons_cons hcd t'⟩
  · by_cases hce : c = '\r' ∧ e = '\n'
    · obtain ⟨rfl, rfl⟩ := hce
      exact ⟨(['\r', '\n'], s), fun _ => rfl⟩
    · exact ⟨([c], e :: s), fun t' => lineBreak_cons_cons hce (s ++ d :: t')⟩

theorem number_break (hd : isLineBreak d = true) (s : List Char) :
    ∃ split : Split, ∀ t', number (s ++ d :: t') = split.before (d :: t') := by
  by_cases hbare : IsBareBase s
  · obtain ⟨letter, hletter, rfl⟩ := hbare
    exact ⟨(['0', letter], []), fun t' => (number_bareBase hletter).2 hd⟩
  · exact ⟨number s, fun t' => number_tail hbare (atLineEnd_cons hd t')⟩

/-- A token that leaves a line break is found whatever follows the line break. -/
theorem content_break (hd : isLineBreak d = true) {st : State} {c : Char} {s : List Char} {n : Next}
    (h : content st c (s ++ d :: t) = .ok n) (hleft : t.length < n.2.2.length) :
    ∃ m : Next, ∀ t', content st c (s ++ d :: t') = .ok (m.before (d :: t')) := by
  have htail (t' : List Char) : AtLineEnd (d :: t') := atLineEnd_cons hd t'
  obtain ⟨digits, hdigits⟩ := number_break hd s
  unfold content at h ⊢
  simp only [stringPrefix?_tail (htail _), beginsNumber_tail (htail _), operator?_tail (htail _), hdigits,
    spanOf_tail failsAtBreaks_isWordChar s (htail _)] at h ⊢
  cases hmark : stringPrefix? s with
  | some mark =>
    simp only [hmark] at h ⊢
    cases hsplit : stringLiteral? mark s with
    | some split =>
      refine ⟨st.reveal .string split, fun t' => ?_⟩
      rw [stringLiteral?_tail (htail t') hmark hsplit]
      rfl
    | none =>
      -- the string would end after the line break
      split at h
      · next split hlong =>
        obtain rfl := Except.ok.inj h
        exact absurd (length_lt_of_stringLiteral? (htail t) hmark hsplit hlong) (Nat.not_lt.mpr hleft)
      · cases h
  | none =>
    simp only [hmark] at h ⊢
    split_ifs at h ⊢
    · exact ⟨st.reveal .number digits, fun _ => rfl⟩
    · exact ⟨st.reveal (wordKind (spanOf isWordChar s).1) (spanOf isWordChar s), fun _ => rfl⟩
    · cases hoperator : operator? s with
      | none => rw [hoperator] at h; cases h
      | some o =>
        have hlength := congrArg List.length (operator?_append hoperator).1
        simp only [List.length_append, List.length_drop] at hlength
        refine ⟨(st.countBracket o.1).reveal (.operator o.2) (o.1, s.drop o.1.length), fun t' => ?_⟩
        simp only [List.drop_append_of_le_length (show o.1.length ≤ s.length by omega)]
        rfl

/-- A segment that leaves a line break is found whatever follows the line break. -/
theorem next_break (hd : isLineBreak d = true) {st : State} {c : Char} {s : List Char} {n : Next}
    (h : next st c (s ++ d :: t) = .ok n) (hleft : t.length < n.2.2.length) :
    ∃ m : Next, ∀ t', next st c (s ++ d :: t') = .ok (m.before (d :: t')) := by
  have htail (t' : List Char) : AtLineEnd (d :: t') := atLineEnd_cons hd t'
  have hhead (t' : List Char) : (s ++ d :: t').head? = (s ++ [d]).head? := by cases s <;> rfl
  unfold next at h ⊢
  simp only [← List.cons_append, spanOf_tail failsAtBreaks_isBlank (c :: s) (htail _),
    spanOf_tail failsAtBreaks_not_isLineBreak (c :: s) (htail _), hhead] at h ⊢
  split_ifs at h ⊢
  · obtain rfl := Except.ok.inj h
    have hsplit : (st.endLine (lineBreak (c :: s ++ d :: t))).2.2 = (lineBreak (c :: s ++ d :: t)).2 := by
      unfold State.endLine
      split <;> rfl
    rw [hsplit] at hleft
    obtain ⟨split, hsplit⟩ := lineBreak_break hleft
    exact ⟨st.endLine split, fun t' => by rw [hsplit, endLine_before]⟩
  · exact ⟨st.hide .skip (spanOf isBlank (c :: s)), fun _ => rfl⟩
  · obtain rfl := Except.ok.inj h
    obtain ⟨split, hsplit⟩ := lineBreak_break hleft
    exact ⟨st.hide .skip (c :: split.1, split.2), fun t' => by rw [hsplit]; rfl⟩
  · exact ⟨st.hide .comment (spanOf (!isLineBreak ·) (c :: s)), fun _ => rfl⟩
  · exact content_break hd h hleft

/-! ## Runs up to a line break -/

/-- A step that leaves a line break is a step whatever follows the line break. -/
theorem Step.replace (hd : isLineBreak d = true) {st after : State} {s left : List Char} {found : List (Segment Kind)}
    (h : Step st (s ++ d :: t) found after left) (hleft : t.length < left.length) :
    ∃ v, left = v ++ d :: t ∧ ∀ t', Step st (s ++ d :: t') found after (v ++ d :: t') := by
  have htail (t' : List Char) : AtLineEnd (d :: t') := atLineEnd_cons hd t'
  cases hline : st.lineStart with
  | true =>
    have hspan (t' : List Char) := spanOf_tail failsAtBreaks_isBlank s (htail t')
    have hspace (t' : List Char) : leadingSpace (s ++ d :: t') = leadingSpace s := by
      rw [leadingSpace, hspan]
      rfl
    have hafter (t' : List Char) : afterSpace (s ++ d :: t') = afterSpace s ++ d :: t' := by
      rw [afterSpace, hspan]
      rfl
    obtain ⟨levels, hfound, rfl, rfl⟩ := (step_iff_of_lineStart hline (by simp)).mp h
    refine ⟨afterSpace s, hafter t, fun t' => (step_iff_of_lineStart hline (by simp)).mpr ⟨levels, ?_, rfl, (hafter t').symm⟩⟩
    rw [hspace, hafter, indentation_tail (htail _)] at hfound ⊢
    exact hfound
  | false =>
    generalize hs : s ++ d :: t = text at h
    cases h with
    | line hstart => rw [hline] at hstart; cases hstart
    | @inside _ c rest _ segment _ hnext =>
      cases s with
      | nil =>
        -- the line break itself would be taken
        obtain ⟨rfl, rfl⟩ := List.cons.inj hs
        exact absurd (next_begins hnext).length_lt (by simp; omega)
      | cons b s =>
        obtain ⟨rfl, rfl⟩ := List.cons.inj hs
        obtain ⟨m, hm⟩ := next_break hd hnext hleft
        obtain ⟨rfl, rfl, rfl⟩ : segment = m.1 ∧ after = m.2.1 ∧ left = m.2.2 ++ d :: t := by
          simpa [Next.before] using hnext.symm.trans (hm t)
        exact ⟨m.2.2, rfl, fun t' => .inside hline (hm t')⟩

/-- A run that leaves a line break is a run whatever follows the line break. -/
theorem Run.replace_break (hd : isLineBreak d = true) {st last : State} {s left : List Char} {segments : List (Segment Kind)}
    (h : Run st (s ++ d :: t) segments last left) (hleft : t.length < left.length) :
    ∃ v, left = v ++ d :: t ∧ ∀ t', Run st (s ++ d :: t') segments last (v ++ d :: t') := by
  generalize hs : s ++ d :: t = text at h
  induction h generalizing s with
  | refl st text => exact ⟨s, hs.symm, fun t' => .refl st _⟩
  | @step st mid last text u left found segments hstep hrun ih =>
    subst hs
    have hlength := congrArg List.length hrun.joined_append
    rw [List.length_append] at hlength
    obtain ⟨v, rfl, hstep'⟩ := hstep.replace hd (by omega)
    obtain ⟨w, rfl, hrun'⟩ := ih hleft rfl
    exact ⟨w, rfl, fun t' => .step (hstep' t') (hrun' t')⟩

end

/-- Whether a text is a line feed, or a carriage return and a line feed. -/
def IsFeed (text : List Char) : Prop := text = ['\n'] ∨ text = ['\r', '\n']

theorem IsFeed.lineBreak_append {feed : List Char} (h : IsFeed feed) (rest : List Char) :
    lineBreak (feed ++ rest) = (feed, rest) := by
  rcases h with rfl | rfl <;> rfl

theorem IsFeed.atLineEnd_append {feed : List Char} (h : IsFeed feed) (rest : List Char) : AtLineEnd (feed ++ rest) := by
  rcases h with rfl | rfl
  · exact atLineEnd_cons rfl rest
  · exact atLineEnd_cons rfl ('\n' :: rest)

/-- A line feed is taken whatever follows it. -/
theorem IsFeed.next_eq {feed rest tail : List Char} {c : Char} (h : IsFeed feed) (hs : feed ++ rest = c :: tail)
    (st : State) : next st c tail = .ok ((st.endLine (feed, [])).before rest) := by
  have hc : isLineBreak c = true := h.atLineEnd_append rest c (by simp [hs])
  rw [next, if_pos hc, ← hs, h.lineBreak_append, ← endLine_before]
  rfl

/-- A segment that ends a line, and with it a text that ends in a line feed, is a line feed. -/
theorem IsLineEnd.isFeed {text before : List Char} (h : IsLineEnd text) (hlast : (before ++ text).getLast? = some '\n') :
    IsFeed text := by
  rcases h with rfl | rfl | rfl
  · exact .inl rfl
  · simp at hlast
  · exact .inr rfl

/-- A run up to the beginning of a line that a line feed precedes is a run over every text that begins in the same way. -/
theorem Run.replace {first rest : List Char} {segments : List (Segment Kind)} {st : State}
    (h : Run .initial (first ++ rest) segments st rest) (hline : st.lineStart = true)
    (hfirst : first = [] ∨ first.getLast? = some '\n') (other : List Char) :
    Run .initial (first ++ other) segments st other := by
  have hjoined := List.append_cancel_right h.joined_append
  rcases h.eq_or_last with ⟨rfl, rfl, -⟩ | ⟨before, mid, t, found, hrun, hlast, rfl⟩
  · rw [← hjoined]
    exact .refl _ _
  · cases hlast with
    | line => cases hline
    | @inside _ c tail _ segment hmid hnext =>
      obtain ⟨hbegins, hne⟩ := next_begins hnext
      dsimp only at hbegins hne
      rw [Segment.joined_append, Segment.joined_cons, Segment.joined_nil, List.append_nil] at hjoined
      have hfeed : IsFeed segment.text := by
        refine (((next_inside hnext).lineStart_iff hmid).mp hline).1.isFeed (hjoined ▸ hfirst.resolve_left ?_)
        simp [← hjoined, hne]
      -- the last segment is a line feed, and what comes before it does not depend on the rest
      obtain ⟨d, feed, hd⟩ := List.exists_cons_of_ne_nil hne
      have hbreak : isLineBreak d = true := hfeed.atLineEnd_append [] d (by simp [hd])
      rw [← hbegins, ← hjoined, List.append_assoc, hd] at hrun
      obtain ⟨v, hv, hrun⟩ := hrun.replace_break hbreak (by simp)
      obtain rfl := List.append_left_eq_self.mp hv.symm
      have hsame := (hfeed.next_eq hbegins mid).symm.trans hnext
      obtain ⟨hsegment, hst, hnil⟩ : (mid.endLine (segment.text, [])).1 = segment ∧
          (mid.endLine (segment.text, [])).2.1 = st ∧ (mid.endLine (segment.text, [])).2.2 = [] := by
        simpa [Next.before] using hsame
      have hother : next mid d (feed ++ other) = .ok (segment, st, other) := by
        have hcons : segment.text ++ other = d :: (feed ++ other) := by rw [hd, List.cons_append]
        rw [hfeed.next_eq hcons, Next.before, hsegment, hst, hnil, List.nil_append]
      have hlong := (hrun (feed ++ other)).trans (.single (.inside hmid hother))
      rwa [← List.cons_append, ← hd, ← List.append_assoc, hjoined] at hlong

/-! ## Tokens -/

/-- Whether two texts come to the same, but for positions and hidden tokens: the same tokens are seen, or the texts are
refused for the same reason. -/
def SameShown : Except LexingError (List Token) → Except LexingError (List Token) → Prop
  | .ok ts, .ok us => seen ts = seen us
  | .error e, .error e' => ∃ failure p p', e = Failure.error p failure ∧ e' = Failure.error p' failure
  | _, _ => False

theorem sameShown_of_visible {segments more : List (Segment Kind)} (h : visible segments = visible more)
    (failure : Option Failure) : SameShown (Cut.tokens ⟨segments, failure⟩ Kind.place Failure.error)
      (Cut.tokens ⟨more, failure⟩ Kind.place Failure.error) := by
  cases failure with
  | none =>
    simp only [Cut.tokens, Segment.tokens_eq_emitted, SameShown, seen_emitted, h]
  | some failure => exact ⟨failure, _, _, rfl, rfl⟩

/-- A text is cut along a run, and then as the rest of it is cut. -/
theorem Run.cut_eq {s left : List Char} {segments more : List (Segment Kind)} {st : State} {failure : Option Failure}
    (h : Run .initial s segments st left) (hends : Ends st left more failure) : cut s = ⟨segments ++ more, failure⟩ := by
  cases hends with
  | finished hrun => rw [cut_of_run (h.trans hrun), List.append_assoc]
  | stuck hrun hstuck => rw [cut_of_stuck (h.trans hrun) hstuck, List.append_assoc]

/-- A line of white space, and perhaps a comment, shows nothing where it is put in at the beginning of a line. -/
theorem sameShown_insertLine {first rest line feed : List Char} {segments : List (Segment Kind)} {st : State}
    (hfirst : first = [] ∨ first.getLast? = some '\n') (hrun : Run .initial (first ++ rest) segments st rest)
    (hline : st.lineStart = true) (hsilent : IsSilentLine line) (hfeed : IsFeed feed) :
    SameShown (tokens (String.ofList (first ++ rest))) (tokens (String.ofList (first ++ (line ++ feed) ++ rest))) := by
  obtain ⟨more, -, hends⟩ := cutFrom_ends st [] rest
  have hshort := hrun.cut_eq hends
  obtain ⟨found, after, hfound, hhidden, hlevels, hbrackets, hshown, hafter⟩ :=
    run_silentLine hrun.settled (.inl hline) hsilent (hfeed.atLineEnd_append rest)
  rw [hfeed.lineBreak_append] at hfound
  -- the line leaves the state as it is
  obtain rfl : after = st := by
    have hstart := (hafter (by rcases hfeed with rfl | rfl <;> simp)).mpr (hrun.settled hline).1
    cases after
    cases st
    simp_all
  have hlong := ((hrun.replace hline hfirst _).trans hfound).cut_eq hends
  rw [tokens, tokens, String.toList_ofList, String.toList_ofList, hshort, List.append_assoc, List.append_assoc, hlong]
  refine sameShown_of_visible ?_ _
  simp [visible_append, hhidden.visible_eq_nil]

/-- A line before the first line of a block, with a form feed in its white space and two characters at its end. -/
theorem sameShown_insertLine_formFeed :
    SameShown (tokens "if a\n\tb") (tokens "if a\n \x0c# c\r\n\tb") ∧
      (tokens "if a\n \x0c# c\r\n\tb").toOption.map (fun ts => (seen ts).map Prod.snd) =
        some ["if", "a", "\n", "\t", "b", "", ""] := by
  have hline : Step .initial ['i', 'f', ' ', 'a', '\n', '\t', 'b'] [] ⟨[], 0, false, false⟩
      ['i', 'f', ' ', 'a', '\n', '\t', 'b'] := .line rfl rfl
  have hif : Step ⟨[], 0, false, false⟩ ['i', 'f', ' ', 'a', '\n', '\t', 'b'] [⟨wordKind ['i', 'f'], ['i', 'f']⟩]
      ⟨[], 0, false, true⟩ [' ', 'a', '\n', '\t', 'b'] := .inside rfl (by decide +kernel)
  have hspace : Step ⟨[], 0, false, true⟩ [' ', 'a', '\n', '\t', 'b'] [⟨.skip, [' ']⟩] ⟨[], 0, false, true⟩
      ['a', '\n', '\t', 'b'] := .inside rfl (by decide +kernel)
  have hname : Step ⟨[], 0, false, true⟩ ['a', '\n', '\t', 'b'] [⟨.name, ['a']⟩] ⟨[], 0, false, true⟩
      ['\n', '\t', 'b'] := .inside rfl (by decide +kernel)
  have hbreak : Step ⟨[], 0, false, true⟩ ['\n', '\t', 'b'] [⟨.newline, ['\n']⟩] ⟨[], 0, true, false⟩ ['\t', 'b'] :=
    .inside rfl (by decide +kernel)
  have hrun := Run.step hline (.step hif (.step hspace (.step hname (.single hbreak))))
  have hsilent : IsSilentLine [' ', '\x0c', '#', ' ', 'c'] := by simp [IsSilentLine, IsComment, isBlank, isLineBreak]
  have hshown := @sameShown_insertLine ['i', 'f', ' ', 'a', '\n'] ['\t', 'b'] _ ['\r', '\n'] _ _ (.inr rfl) hrun rfl hsilent
    (.inr rfl)
  have hshort : String.ofList (['i', 'f', ' ', 'a', '\n'] ++ ['\t', 'b']) = "if a\n\tb" := by decide
  have hlong : String.ofList (['i', 'f', ' ', 'a', '\n'] ++ ([' ', '\x0c', '#', ' ', 'c'] ++ ['\r', '\n']) ++ ['\t', 'b']) =
      "if a\n \x0c# c\r\n\tb" := by decide
  rw [hshort, hlong] at hshown
  exact ⟨hshown, by decide +kernel⟩

end Lexeme.Python
