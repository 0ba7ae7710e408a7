import Lexeme.Proofs.Python.Symbols

/-!
# Lines without tokens

A line that holds nothing but white space and perhaps a comment is taken without anything being seen, and leaves the open
blocks as they are (`run_silentLine`). The line may begin outside brackets, where its white space is looked at, or stand
inside brackets. A text of such lines shows nothing at all (`run_silent`).
-/

namespace Lexeme.Python

/-- Whether the rest of a line is nothing or a comment. -/
def IsComment (text : List Char) : Prop := ∀ c ∈ text.head?, c = '#'

/-- A line of white space, and perhaps a comment. -/
def IsSilentLine (line : List Char) : Prop :=
  (∀ c ∈ line, isLineBreak c = false) ∧ IsComment (line.dropWhile isBlank)

/-- Whether a text is at its end or at a line break. -/
def AtLineEnd (text : List Char) : Prop := ∀ c ∈ text.head?, isLineBreak c = true

/-- A text in which no line has a token. -/
def IsSilent (text : List Char) : Prop := ∀ line ∈ text.splitOnP isLineBreak, IsComment (line.dropWhile isBlank)

/-- Whether nothing of some segments is seen. -/
def AllHidden (segments : List (Segment Kind)) : Prop := ∀ s ∈ segments, s.kind.IsHidden

theorem AllHidden.append {segments more : List (Segment Kind)} (h : AllHidden segments) (h' : AllHidden more) :
    AllHidden (segments ++ more) := by
  intro s hs
  rcases List.mem_append.mp hs with hs | hs
  · exact h s hs
  · exact h' s hs

theorem allHidden_singleton {s : Segment Kind} (h : s.kind.IsHidden) : AllHidden [s] := by
  intro t ht
  rwa [List.mem_singleton.mp ht]

theorem AllHidden.visible_eq_nil {segments : List (Segment Kind)} (h : AllHidden segments) : visible segments = [] :=
  List.filter_eq_nil_iff.mpr fun s hs => by simp [(h s hs).channel_eq, hiddenChannel, defaultChannel]

theorem allHidden_blankSegments (space : List Char) : AllHidden (blankSegments space) := by
  unfold blankSegments
  split
  · exact nofun
  · exact allHidden_singleton (.inl rfl)

/-! ## The pieces of a line -/

/-- What is taken off a text ends where a character is found that does not belong to it. -/
theorem spanOf_append_of_all {p : Char → Bool} {first rest : List Char} (hfirst : ∀ c ∈ first, p c = true)
    (hrest : ∀ c ∈ rest.head?, p c = false) : spanOf p (first ++ rest) = (first, rest) := by
  have htake : rest.takeWhile p = [] ∧ rest.dropWhile p = rest := by
    cases rest with
    | nil => exact ⟨rfl, rfl⟩
    | cons c rest => simp [hrest c rfl]
  simp only [spanOf, List.takeWhile_append_of_pos hfirst, List.dropWhile_append_of_pos hfirst, htake, List.append_nil]

section

variable {st : State} {space comment tail : List Char}

/-- What follows the white space of a line without tokens is not white space. -/
theorem not_isBlank_of_isComment (hcomment : IsComment comment) (htail : AtLineEnd tail) :
    ∀ c ∈ (comment ++ tail).head?, isBlank c = false := by
  intro c hc
  cases comment with
  | nil =>
    cases hblank : isBlank c with
    | false => rfl
    | true => exact absurd (htail c hc) (by simp [not_isLineBreak_of_isBlank hblank])
  | cons d comment =>
    obtain rfl := hcomment c hc
    rfl

theorem run_space (hline : st.lineStart = false) (hspace : ∀ c ∈ space, isBlank c = true)
    (hcomment : IsComment comment) (htail : AtLineEnd tail) :
    Run st (space ++ (comment ++ tail)) (blankSegments space) st (comment ++ tail) := by
  unfold blankSegments
  split
  · next h =>
    rw [h]
    exact .refl st _
  · next h =>
    obtain ⟨c, rest, rfl⟩ := List.exists_cons_of_ne_nil h
    have hc := hspace c List.mem_cons_self
    have hspan := spanOf_append_of_all hspace (not_isBlank_of_isComment hcomment htail)
    rw [List.cons_append] at hspan ⊢
    refine Run.single (.inside hline ?_)
    rw [next, if_neg (by simp [not_isLineBreak_of_isBlank hc]), if_pos hc, State.hide, hspan]

theorem run_comment (hline : st.lineStart = false) (hcomment : IsComment comment)
    (hbreaks : ∀ c ∈ comment, isLineBreak c = false) (htail : AtLineEnd tail) :
    ∃ found, Run st (comment ++ tail) found st tail ∧ AllHidden found := by
  cases comment with
  | nil => exact ⟨[], .refl st _, nofun⟩
  | cons c comment =>
    obtain rfl := hcomment c rfl
    have hspan : spanOf (!isLineBreak ·) (('#' :: comment) ++ tail) = ('#' :: comment, tail) :=
      spanOf_append_of_all (fun c hc => by simp [hbreaks c hc]) (fun c hc => by simp [htail c hc])
    rw [List.cons_append] at hspan ⊢
    have hnext : next st '#' (comment ++ tail) = .ok (⟨.comment, '#' :: comment⟩, st, tail) := by
      rw [next, if_neg (by decide), if_neg (by decide), if_neg (by simp), if_pos rfl, State.hide, hspan]
    exact ⟨_, Run.single (.inside hline hnext), allHidden_singleton (.inr rfl)⟩

/-- A line break that ends no line with a token is not seen. -/
theorem run_lineBreak (hline : st.lineStart = false) (hquiet : ¬(st.brackets = 0 ∧ st.shown = true))
    (htail : AtLineEnd tail) (hne : tail ≠ []) :
    ∃ found, Run st tail found { st with lineStart := st.brackets = 0 } (lineBreak tail).2 ∧ AllHidden found := by
  obtain ⟨c, rest, rfl⟩ := List.exists_cons_of_ne_nil hne
  have hnext : next st c rest = .ok (⟨.skip, (lineBreak (c :: rest)).1⟩, { st with lineStart := st.brackets = 0 },
      (lineBreak (c :: rest)).2) := by
    rw [next, if_pos (htail c rfl), State.endLine, if_neg hquiet]
  exact ⟨_, Run.single (.inside hline hnext), allHidden_singleton (.inl rfl)⟩

end

/-! ## Lines -/

variable {st : State} {line tail : List Char}

/-- Up to its end a line without tokens shows nothing, and what the lexer remembers stays the same. -/
theorem run_toLineEnd (hsilent : IsSilentLine line) (htail : AtLineEnd tail) :
    ∃ found after, Run st (line ++ tail) found after tail ∧ AllHidden found ∧ after.levels = st.levels ∧
      after.brackets = st.brackets ∧ after.shown = st.shown ∧ (tail ≠ [] → after.lineStart = false) := by
  obtain ⟨hbreaks, hcomment⟩ := hsilent
  have hsplit := spanOf_append isBlank line
  rw [spanOf] at hsplit
  have hspace : ∀ c ∈ line.takeWhile isBlank, isBlank c = true := fun c hc => List.mem_takeWhile_imp hc
  have hbreaks : ∀ c ∈ line.dropWhile isBlank, isLineBreak c = false :=
    fun c hc => hbreaks c ((List.dropWhile_suffix isBlank).subset hc)
  generalize line.takeWhile isBlank = space, line.dropWhile isBlank = comment at *
  rw [← hsplit, List.append_assoc]
  cases hline : st.lineStart with
  | false =>
    have hblank := run_space hline hspace hcomment htail
    obtain ⟨found, hfound, hhidden⟩ := run_comment hline hcomment hbreaks htail
    exact ⟨_, st, hblank.trans hfound, (allHidden_blankSegments space).append hhidden, rfl, rfl, rfl, fun _ => hline⟩
  | true =>
    by_cases hnil : space ++ (comment ++ tail) = []
    · obtain ⟨rfl, rfl, rfl⟩ : space = [] ∧ comment = [] ∧ tail = [] := by simpa using hnil
      exact ⟨[], st, .refl st _, by simp [AllHidden], rfl, rfl, rfl, fun h => absurd rfl h⟩
    · -- the white space at the beginning of the line is looked at, and found to belong to no token
      have hspan := spanOf_append_of_all hspace (not_isBlank_of_isComment hcomment htail)
      have hquiet : isSilentRest (comment ++ tail) = true := by
        cases comment with
        | nil =>
          cases tail with
          | nil => rfl
          | cons c tail => simp [isSilentRest, htail c rfl]
        | cons c comment => simp [isSilentRest, hcomment c rfl]
      have hindentation : indentation st.levels space (comment ++ tail) = (blankSegments space, st.levels, true) := by
        rcases indentation_cases st.levels space (comment ++ tail) with ⟨-, h⟩ | ⟨h, -⟩ | ⟨h, -⟩
        · exact h
        · rw [hquiet] at h
          cases h
        · rw [hquiet] at h
          cases h
      have hstep : Step st (space ++ (comment ++ tail)) (blankSegments space) (st.enterLine st.levels) (comment ++ tail) := by
        obtain ⟨c, rest, hcons⟩ := List.exists_cons_of_ne_nil hnil
        rw [hcons] at hspan ⊢
        have h := @Step.line st c rest _ _ hline (by rw [hspan]; exact hindentation)
        rwa [hspan] at h
      obtain ⟨found, hfound, hhidden⟩ :=
        run_comment (rfl : (st.enterLine st.levels).lineStart = false) hcomment hbreaks htail
      exact ⟨_, _, .step hstep hfound, (allHidden_blankSegments space).append hhidden, rfl, rfl, by simp [State.enterLine],
        fun _ => rfl⟩

/-- A line without tokens, up to the line break after it, shows nothing and leaves the open blocks as they are. Outside
brackets the next line begins after it. -/
theorem run_silentLine (hsettled : st.Settled) (hquiet : st.lineStart = true ∨ st.brackets ≠ 0)
    (hsilent : IsSilentLine line) (htail : AtLineEnd tail) :
    ∃ found after, Run st (line ++ tail) found after (lineBreak tail).2 ∧ AllHidden found ∧ after.levels = st.levels ∧
      after.brackets = st.brackets ∧ after.shown = st.shown ∧ (tail ≠ [] → (after.lineStart = true ↔ st.brackets = 0)) := by
  obtain ⟨found, after, hrun, hhidden, hlevels, hbrackets, hshown, hline⟩ := @run_toLineEnd st line tail hsilent htail
  by_cases hne : tail = []
  · subst hne
    exact ⟨found, after, hrun, hhidden, hlevels, hbrackets, hshown, fun h => absurd rfl h⟩
  · have hsilentEnd : ¬(after.brackets = 0 ∧ after.shown = true) := by
      rw [hbrackets, hshown]
      rintro ⟨hzero, htrue⟩
      rcases hquiet with hstart | hopen
      · rw [(hsettled hstart).2] at htrue
        cases htrue
      · exact hopen hzero
    obtain ⟨more, hmore, hmoreHidden⟩ := run_lineBreak (hline hne) hsilentEnd htail hne
    exact ⟨_, _, hrun.trans hmore, hhidden.append hmoreHidden, hlevels, hbrackets, hshown, fun _ => by simp [hbrackets]⟩

/-! ## Texts -/

theorem AtLineEnd.exists_cons {tail : List Char} (htail : AtLineEnd tail) (hne : tail ≠ []) :
    ∃ c rest, tail = c :: rest ∧ isLineBreak c = true := by
  obtain ⟨c, rest, rfl⟩ := List.exists_cons_of_ne_nil hne
  exact ⟨c, rest, rfl, htail c rfl⟩

/-- What follows the first line of a text without tokens has no token either. -/
theorem isSilent_lineBreak {line tail : List Char} (hline : ∀ c ∈ line, isLineBreak c = false) (htail : AtLineEnd tail)
    (h : IsSilent (line ++ tail)) : IsSilentLine line ∧ IsSilent (lineBreak tail).2 := by
  by_cases hne : tail = []
  · subst hne
    rw [List.append_nil, IsSilent, List.splitOnP_eq_singleton hline] at h
    exact ⟨⟨hline, h line List.mem_cons_self⟩, by simp [IsSilent, lineBreak, IsComment]⟩
  · obtain ⟨c, rest, rfl, hc⟩ := htail.exists_cons hne
    rw [IsSilent, List.splitOnP_append_cons_of_forall_mem hline c hc] at h
    obtain ⟨hfirst, hrest⟩ := List.forall_mem_cons.mp h
    refine ⟨⟨hline, hfirst⟩, ?_⟩
    unfold lineBreak
    split
    · next after heq =>
      -- the line feed of a line break of two characters ends an empty line
      obtain ⟨rfl, rfl⟩ := List.cons.inj heq
      rw [← List.nil_append ('\n' :: after), List.splitOnP_append_cons_of_forall_mem (by simp) '\n' rfl] at hrest
      exact (List.forall_mem_cons.mp hrest).2
    · next heq =>
      obtain ⟨rfl, rfl⟩ := List.cons.inj heq
      exact hrest
    · next heq => cases heq

/-- A text is its first line and the line end after it. -/
theorem exists_line (text : List Char) :
    ∃ line tail, text = line ++ tail ∧ (∀ c ∈ line, isLineBreak c = false) ∧ AtLineEnd tail := by
  refine ⟨text.takeWhile (!isLineBreak ·), text.dropWhile (!isLineBreak ·), List.takeWhile_append_dropWhile.symm, ?_, ?_⟩
  · intro c hc
    simpa using List.mem_takeWhile_imp hc
  · intro c hc
    have h := List.head?_dropWhile_not (!isLineBreak ·) text
    rw [hc] at h
    simpa using h

theorem length_lineBreak_lt {tail : List Char} (h : tail ≠ []) : (lineBreak tail).2.length < tail.length := by
  obtain ⟨c, rest, rfl⟩ := List.exists_cons_of_ne_nil h
  have hpos := List.length_pos_iff.mpr (lineBreak_ne_nil c rest)
  have hlength := congrArg List.length (lineBreak_append (c :: rest))
  rw [List.length_append] at hlength
  omega

/-- From the beginning of a line on, a text without tokens shows nothing. -/
theorem run_silent {st : State} (hsettled : st.Settled) (hstart : st.lineStart = true) (text : List Char)
    (h : IsSilent text) :
    ∃ found last, Run st text found last [] ∧ AllHidden found ∧ last.levels = st.levels ∧ last.shown = st.shown := by
  obtain ⟨line, tail, htext, hline, htail⟩ := exists_line text
  rw [htext] at h ⊢
  obtain ⟨hsilent, hrest⟩ := isSilent_lineBreak hline htail h
  obtain ⟨found, after, hrun, hhidden, hlevels, hbrackets, hshown, hafter⟩ :=
    run_silentLine hsettled (.inl hstart) hsilent htail
  by_cases hne : tail = []
  · subst hne
    exact ⟨found, after, hrun, hhidden, hlevels, hshown⟩
  · have hzero := (hsettled hstart).1
    have hstart' : after.lineStart = true := (hafter hne).mpr hzero
    have hsettled' : after.Settled := fun _ => ⟨hbrackets.trans hzero, hshown.trans (hsettled hstart).2⟩
    obtain ⟨more, last, hmore, hmoreHidden, hmoreLevels, hmoreShown⟩ := run_silent hsettled' hstart' _ hrest
    exact ⟨_, last, hrun.trans hmore, hhidden.append hmoreHidden, hmoreLevels.trans hlevels, hmoreShown.trans hshown⟩
termination_by text.length
decreasing_by
  have hlt := length_lineBreak_lt hne
  rw [htext, List.length_append]
  omega

end Lexeme.Python
