import Lexeme.Proofs.Python.Lengths
import Lexeme.Proofs.Python.Lossless
import Lexeme.Proofs.Python.Words
import Lexeme.Python.Scanner

/-!
# Scanning by bytes comes to the same

The lexer that splits a text between characters and the scanner that cuts off bytes go through a text together
(`Scanner.of`): the place of the scanner is the number of bytes of the segments that have been found, and its tokens are
those of the segments. One step of the lexer is one step of the scanner (`step?_of_step`), and where the lexer is stuck the
scanner fails (`step?_of_stuck`). So all scanners that are reached from the beginning of a text stand between two
characters, and no step of theirs cuts inside one (`cuts_between_characters`).
-/

namespace Lexeme.Python.Scanner

open Text (byteCount firstBytes? afterBytes?)

/-- The scanner after some segments of a text, when the lexer remembers `st`. -/
def of (found : List (Segment Kind)) (st : State) : Scanner where
  position := Position.start.advanceBy (Segment.joined found)
  tokens := (Segment.emitted Kind.place [] found).reverse
  indents := st.levels ++ [0]
  brackets := st.brackets
  lineStart := st.lineStart
  pending := st.shown

variable {source s text left : List Char} {found more : List (Segment Kind)} {st after : State} {kind : Kind}

@[simp] theorem brackets_of (found : List (Segment Kind)) (st : State) : (of found st).brackets = st.brackets := rfl

@[simp] theorem lineStart_of (found : List (Segment Kind)) (st : State) : (of found st).lineStart = st.lineStart := rfl

@[simp] theorem pending_of (found : List (Segment Kind)) (st : State) : (of found st).pending = st.shown := rfl

theorem offset_of (found : List (Segment Kind)) (st : State) :
    (of found st).position.offset = byteCount (Segment.joined found) := by
  rw [of, Position.offset_advanceBy]
  exact Nat.zero_add _

/-- The scanner stands between the segments and the text that is left. -/
theorem rest?_of (hs : Segment.joined found ++ left = source) : (of found st).rest? source = some left :=
  afterBytes?_of_append _ hs (offset_of found st).symm

/-! ## Tokens -/

theorem push_of (found : List (Segment Kind)) (st : State) (kind : Kind) (text : List Char) :
    (of found st).push kind text = of (found ++ [⟨kind, text⟩]) st := by
  unfold of push
  simp [Segment.emitted_append, Segment.emitted, Segment.token?, Kind.place, Position.advanceBy_append]

theorem emit?_of (hs : Segment.joined found ++ (text ++ left) = source) (hne : text ≠ []) :
    (of found st).emit? source (byteCount text) kind =
      some (of (found ++ [⟨kind, text⟩])
        { st with shown := st.shown || (kind.channel = defaultChannel && kind ≠ .newline) }) := by
  refine emit?_eq_some_iff.mpr ⟨_, text, left, hs, (offset_of found st).symm, rfl, (Text.byteCount_pos hne).ne', ?_⟩
  rw [emitted, push_of]
  rfl

/-- A token that is not seen leaves the rest as it is. -/
theorem emit?_of_hidden (hs : Segment.joined found ++ (text ++ left) = source) (hne : text ≠ [])
    (hkind : kind.channel ≠ defaultChannel) :
    (of found st).emit? source (byteCount text) kind = some (of (found ++ [⟨kind, text⟩]) st) := by
  rw [emit?_of hs hne, decide_eq_false hkind]
  simp

/-- What the next segment of the lexer comes to for the scanner. -/
def turnOf (found : List (Segment Kind)) : Except Failure Next → Turn
  | .ok n => .moved (of (found ++ [n.1]) n.2.1)
  | .error e => .failed (e.error (Position.start.advanceBy (Segment.joined found)))

theorem token?_reveal {split : Split} (hs : Segment.joined found ++ s = source) (hsplit : split.1 ++ split.2 = s)
    (hne : split.1 ≠ []) (hkind : kind.channel = defaultChannel) (hnewline : kind ≠ .newline) :
    (of found st).token? source (byteCount split.1) kind = some (turnOf found (.ok (st.reveal kind split))) := by
  subst hsplit
  rw [token?, emit?_of hs hne]
  simp [turnOf, State.reveal, hkind, hnewline]

theorem token?_hide {split : Split} (hs : Segment.joined found ++ s = source) (hsplit : split.1 ++ split.2 = s)
    (hne : split.1 ≠ []) (hkind : kind.channel ≠ defaultChannel) :
    (of found st).token? source (byteCount split.1) kind = some (turnOf found (.ok (st.hide kind split))) := by
  subst hsplit
  rw [token?, emit?_of_hidden hs hne hkind]
  rfl

/-! ## At the beginning of a line -/

theorem skip?_of (hs : Segment.joined found ++ (text ++ left) = source) :
    (of found st).skip? source (byteCount text) = some (of (found ++ blankSegments text) st) := by
  unfold skip? blankSegments
  by_cases hne : text = []
  · simp [hne]
  · rw [if_pos (Text.byteCount_pos hne), if_neg hne, emit?_of_hidden hs hne (by decide)]

theorem closeBlocks_of (width : Nat) (found : List (Segment Kind)) (st : State) (levels : List Nat) :
    closeBlocks width (of found st) (levels ++ [0]) =
      of (found ++ List.replicate (levels.length - (levels.dropWhile (width < ·)).length) ⟨.dedent, []⟩)
        { st with levels := levels.dropWhile (width < ·) } := by
  induction levels generalizing found with
  | nil => simp [closeBlocks, of]
  | cons top levels ih =>
    rw [List.cons_append, closeBlocks]
    split
    · next hwider =>
      have hle : (levels.dropWhile (width < ·)).length ≤ levels.length := (List.dropWhile_suffix _).length_le
      rw [push_of, ih, List.dropWhile_cons_of_pos (by simpa using hwider), List.length_cons, Nat.succ_sub hle,
        List.replicate_succ, List.append_assoc]
      rfl
    · next hnarrow =>
      rw [List.dropWhile_cons_of_neg (by simpa using hnarrow)]
      simp [of]

theorem head?_indents_of (found : List (Segment Kind)) (st : State) :
    (of found st).indents.head? = some (st.levels.head?.getD 0) := by
  cases hlevels : st.levels <;> simp [of, hlevels]

/-- Inside a line the state changes with the blocks only: a block that is opened is shown. -/
theorem enterLine_of_le {levels : List Nat} (hline : st.lineStart = false) (h : levels.length ≤ st.levels.length) :
    st.enterLine levels = { st with levels } := by
  simp [State.enterLine, hline, Nat.not_lt.mpr h]

/-- At the beginning of a line the scanner finds what the lexer finds, and fails where the width is that of no open block. -/
theorem indentation?_of {levels : List Nat} {consistent : Bool} {space rest : List Char} (hline : st.lineStart = false)
    (hs : Segment.joined found ++ s = source) (hspace : spanOf isBlank s = (space, rest))
    (h : indentation st.levels space rest = (more, levels, consistent)) :
    indentation? source (of found st) =
      some (if consistent then .moved (of (found ++ more) (st.enterLine levels))
        else .failed (.inconsistentDedent (Position.start.advanceBy (Segment.joined (found ++ more))))) := by
  have hsplit : space ++ rest = s := by
    have := spanOf_append isBlank s
    rwa [hspace] at this
  subst hsplit
  have hlength : whitespaceLength (space ++ rest) = byteCount space := by
    rw [whitespaceLength, spanLength_eq, hspace]
  have hblank : (rest.head?.all fun c => isLineBreak c || c = '#') = isSilentRest rest := rfl
  simp only [indentation?, rest?_of hs, hlength, Text.firstBytes?_append, Text.afterBytes?_append, hblank,
    head?_indents_of, Option.getD_some, Option.bind_eq_bind, Option.bind_some]
  rcases indentation_cases st.levels space rest with ⟨hflat, hfound⟩ | ⟨hsilent, hdeeper, hfound⟩ | ⟨hsilent, hless, hfound⟩
  · rw [hfound] at h
    cases h
    rw [if_pos hflat, skip?_of hs, enterLine_of_le hline (Nat.le_refl _)]
    rfl
  · rw [hfound] at h
    cases h
    have hopened : { of found st with indents := indentWidth space :: (of found st).indents } =
        of found { st with levels := indentWidth space :: st.levels } := rfl
    rw [if_neg (by simp [hsilent, hdeeper.ne']), if_pos hdeeper, hopened, token?,
      emit?_of hs (ne_nil_of_indentWidth_pos (Nat.zero_lt_of_lt hdeeper))]
    simp [State.enterLine, hline, Kind.channel]
  · rw [hfound] at h
    cases h
    have hle : (st.levels.dropWhile (indentWidth space < ·)).length ≤ st.levels.length :=
      (List.dropWhile_suffix _).length_le
    have hclosed : closeBlocks (indentWidth space) (of (found ++ blankSegments space) st)
        (of (found ++ blankSegments space) st).indents = _ := closeBlocks_of (indentWidth space) _ st st.levels
    rw [if_neg (by simp [hsilent, hless.ne]), if_neg (Nat.not_lt.mpr hless.le), skip?_of hs, Option.bind_some,
      enterLine_of_le hline hle]
    simp only [hclosed, head?_indents_of, Option.some.injEq, List.append_assoc, decide_eq_true_eq]
    split <;> rfl

/-! ## Inside a line -/

variable {c : Char} {rest : List Char}

theorem lineEnd?_of (hs : Segment.joined found ++ (c :: rest) = source) (hc : isLineBreak c = true) :
    lineEnd? source (of found st) = some (turnOf found (.ok (st.endLine (lineBreak (c :: rest))))) := by
  have hsplit := lineBreak_append (c :: rest)
  have hne := lineBreak_ne_nil c rest
  have hlength := lineBreakLength_eq hc rest
  generalize lineBreak (c :: rest) = split at hsplit hne hlength
  have hs' : Segment.joined found ++ (split.1 ++ split.2) = source := by rwa [hsplit]
  simp only [lineEnd?, rest?_of hs, hlength, Option.bind_eq_bind, Option.bind_some, brackets_of, pending_of, State.endLine]
  by_cases hshown : st.brackets = 0 ∧ st.shown
  · rw [if_pos hshown, if_pos hshown, emit?_of hs' hne]
    rfl
  · rw [if_neg hshown, if_neg hshown, emit?_of_hidden hs' hne (by decide)]
    rfl

theorem countBracket_of (found : List (Segment Kind)) (st : State) (operator : List Char) :
    (of found st).countBracket operator = of found (st.countBracket operator) := by
  unfold countBracket State.countBracket
  split
  · rfl
  · split <;> rfl

theorem channel_wordKind (word : List Char) : (wordKind word).channel = defaultChannel ∧ wordKind word ≠ .newline := by
  unfold wordKind
  split <;> exact ⟨rfl, Kind.noConfusion⟩

/-- Inside a line the scanner finds the token that the lexer finds, or fails as it does. -/
theorem content?_of (hs : Segment.joined found ++ (c :: rest) = source) :
    content? source (of found st) c (c :: rest) = some (turnOf found (content st c (c :: rest))) := by
  unfold content? content
  rw [stringPrefixLength?_eq]
  cases hmark : stringPrefix? (c :: rest) with
  | some mark =>
    simp only [Option.map_some, Option.bind_eq_bind, Option.bind_some, stringLength?_eq hmark]
    cases hliteral : stringLiteral? mark (c :: rest) with
    | none => rfl
    | some split =>
      exact token?_reveal hs (stringLiteral?_append (stringPrefix?_take hmark) hliteral) (stringLiteral?_ne_nil hliteral) rfl
        (by decide)
  | none =>
    simp only [Option.map_none, Option.bind_eq_bind, Option.bind_some, numberLength?_eq, spanLength_eq]
    split
    · next hnumber => exact token?_reveal hs (number_append _) (number_ne_nil hnumber) rfl (by decide)
    · split
      · next hword =>
        have hsplit := spanOf_append isWordChar (c :: rest)
        have hne := spanOf_ne_nil (isWordChar_of_isWordStart hword) rest
        obtain ⟨hkind, hnewline⟩ := channel_wordKind (spanOf isWordChar (c :: rest)).1
        rw [Text.firstBytes?_eq_some_iff.mpr ⟨_, hsplit, rfl⟩]
        exact token?_reveal hs hsplit hne hkind hnewline
      · cases hoperator : operator? (c :: rest) with
        | none => rfl
        | some o =>
          let split : Split := (o.1, (c :: rest).drop o.1.length)
          obtain ⟨hsplit, hne⟩ : split.1 ++ split.2 = c :: rest ∧ split.1 ≠ [] := operator?_append hoperator
          dsimp only
          rw [countBracket_of]
          exact token?_reveal hs hsplit hne rfl Kind.noConfusion

/-- Inside a line one step of the scanner goes over the next segment. -/
theorem step?_inside (hline : st.lineStart = false) (hs : Segment.joined found ++ (c :: rest) = source) :
    step? source (of found st) = some (turnOf found (next st c rest)) := by
  simp only [step?, rest?_of hs, lineStart_of, hline, Option.bind_eq_bind, Option.bind_some, whitespaceLength, spanLength_eq, next,
    Bool.false_eq_true, if_false]
  split
  · next hbreak => exact lineEnd?_of hs hbreak
  · split
    · next hblank => exact token?_hide hs (spanOf_append _ _) (spanOf_ne_nil hblank rest) (by decide)
    · split
      · next hcontinued =>
        obtain ⟨rfl, hbreak⟩ := hcontinued
        obtain ⟨d, hhead, hd⟩ : ∃ d, rest.head? = some d ∧ isLineBreak d = true := by
          simpa [Option.any_eq_true] using hbreak
        obtain ⟨t, rfl⟩ := List.head?_eq_some_iff.mp hhead
        have hsize : ('\\').utf8Size = 1 := rfl
        have hafter : afterBytes? 1 ('\\' :: d :: t) = some (d :: t) := afterBytes?_of_append ['\\'] rfl rfl
        let split : Split := ('\\' :: (lineBreak (d :: t)).1, (lineBreak (d :: t)).2)
        have hsplit : split.1 ++ split.2 = '\\' :: d :: t := congrArg ('\\' :: ·) (lineBreak_append _)
        have hlength : 1 + lineBreakLength (d :: t) = byteCount split.1 := by
          rw [lineBreakLength_eq hd, Text.byteCount_cons, hsize]
        have hne : split.1 ≠ [] := List.cons_ne_nil _ _
        rw [hafter, Option.bind_some, hlength]
        exact token?_hide hs hsplit hne (by decide)
      · split
        · next hcomment =>
          have hne := spanOf_ne_nil (p := (!isLineBreak ·)) (c := c) (by simp [hcomment, isLineBreak]) rest
          exact token?_hide hs (spanOf_append _ _) hne (by decide)
        · exact content?_of hs

/-! ## Steps -/

theorem step?_line {levels : List Nat} {consistent : Bool} (hline : st.lineStart = true)
    (hs : Segment.joined found ++ (c :: rest) = source)
    (h : indentation st.levels (spanOf isBlank (c :: rest)).1 (spanOf isBlank (c :: rest)).2 = (more, levels, consistent)) :
    step? source (of found st) =
      some (if consistent then .moved (of (found ++ more) (st.enterLine levels))
        else .failed (.inconsistentDedent (Position.start.advanceBy (Segment.joined (found ++ more))))) := by
  have hentered : { st with lineStart := false }.lineStart = false := rfl
  rw [step?, rest?_of hs, Option.bind_eq_bind, Option.bind_some]
  exact (if_pos hline).trans (indentation?_of hentered hs rfl h)

/-- A step of the lexer is a step of the scanner. -/
theorem step?_of_step (hs : Segment.joined found ++ s = source) (h : Step st s more after left) :
    step? source (of found st) = some (.moved (of (found ++ more) after)) := by
  cases h with
  | line hline h => exact step?_line hline hs h
  | inside hline h =>
    rw [step?_inside hline hs, h]
    rfl

/-- Where the lexer is stuck the scanner fails, at the same place. -/
theorem step?_of_stuck {e : Failure} (hs : Segment.joined found ++ s = source) (h : Stuck st s more e) :
    step? source (of found st) = some (.failed (e.error (Position.start.advanceBy (Segment.joined (found ++ more))))) := by
  cases h with
  | line hline h => exact step?_line hline hs h
  | inside hline h =>
    rw [step?_inside hline hs, h, List.append_nil]
    rfl

/-- At the end of the text there is no step. -/
theorem step?_of_nil (hs : Segment.joined found = source) : step? source (of found st) = some .ended := by
  have hs : Segment.joined found ++ [] = source := by rwa [List.append_nil]
  rw [step?, rest?_of hs]
  rfl

/-- Before the end of a text the lexer goes on or is stuck. -/
theorem exists_step_or_stuck (st : State) (c : Char) (rest : List Char) :
    (∃ found after left, Step st (c :: rest) found after left) ∨ ∃ found e, Stuck st (c :: rest) found e := by
  cases hline : st.lineStart with
  | true =>
    rcases h : indentation st.levels (spanOf isBlank (c :: rest)).1 (spanOf isBlank (c :: rest)).2 with
      ⟨found, levels, consistent⟩
    cases consistent with
    | true => exact .inl ⟨_, _, _, .line hline h⟩
    | false => exact .inr ⟨_, _, .line hline h⟩
  | false =>
    cases h : next st c rest with
    | ok n => exact .inl ⟨_, _, _, .inside hline h⟩
    | error e => exact .inr ⟨_, _, .inside hline h⟩

/-! ## Runs -/

theorem close_of (found : List (Segment Kind)) (st : State) (levels : List Nat) :
    finish.close (of found st) (levels ++ [0]) = of (found ++ List.replicate levels.length ⟨.dedent, []⟩) st := by
  induction levels generalizing found with
  | nil => simp [finish.close]
  | cons top levels ih =>
    have hclose : finish.close (of found st) (top :: levels ++ [0]) =
        finish.close ((of found st).push .dedent []) (levels ++ [0]) := by cases levels <;> rfl
    rw [hclose, push_of, ih, List.append_assoc]
    rfl

theorem finish_of (found : List (Segment Kind)) (st : State) :
    (of found st).finish = Segment.emitted Kind.place [] (found ++ Python.finish st) := by
  have hclose (found : List (Segment Kind)) : (finish.close (of found st) (of found st).indents).tokens.reverse =
      Segment.emitted Kind.place [] (found ++ List.replicate st.levels.length ⟨.dedent, []⟩) := by
    show (finish.close (of found st) (st.levels ++ [0])).tokens.reverse = _
    rw [close_of]
    exact List.reverse_reverse _
  unfold finish Python.finish
  cases hshown : st.shown with
  | true =>
    simp only [pending_of, hshown, if_true, push_of, hclose, List.append_assoc]
  | false => simp [hshown, hclose]

theorem run?_of_run {last : State} (h : Run st s more last left) (hs : Segment.joined found ++ s = source) :
    run? source (of found st) = run? source (of (found ++ more) last) := by
  induction h generalizing found with
  | refl st s => rw [List.append_nil]
  | @step st mid last s t u found' segments hstep _ ih =>
    have hmid : Segment.joined (found ++ found') ++ t = source := by
      rw [Segment.joined_append, List.append_assoc, hstep.joined_append, hs]
    rw [run?, step?_of_step hs hstep, ← List.append_assoc]
    exact ih hmid

/-- The scanner comes to the tokens of the lexer, or to its error. -/
theorem run?_eq (source : String) : run? source.toList initial = some (Python.tokens source) := by
  have hends := cut_ends source.toList
  have hstart : Segment.joined ([] : List (Segment Kind)) ++ source.toList = source.toList := rfl
  rw [show initial = of [] .initial from rfl]
  generalize hsegments : (cut source.toList).segments = segments at hends
  cases hfailure : (cut source.toList).failure with
  | none =>
    rw [hfailure] at hends
    cases hends with
    | @finished segments last hrun =>
      have hjoined : Segment.joined segments = source.toList := by simpa using hrun.joined_append
      have htokens : Python.tokens source = .ok _ := Cut.tokens_eq_ok_iff.mpr ⟨hfailure, rfl⟩
      rw [run?_of_run hrun hstart, run?, List.nil_append, step?_of_nil hjoined, htokens, hsegments, ← finish_of]
  | some e =>
    rw [hfailure] at hends
    cases hends with
    | @stuck segments found last left _ hrun hstuck =>
      have htokens : Python.tokens source = .error _ := Cut.tokens_eq_error_iff.mpr ⟨e, hfailure, rfl⟩
      rw [run?_of_run hrun hstart, run?, List.nil_append, step?_of_stuck hrun.joined_append hstuck, htokens, hsegments]

/-- The scanners that steps lead to from the beginning of a text. -/
inductive Reachable (source : List Char) : Scanner → Prop
  | initial : Reachable source initial
  | step {s after : Scanner} (h : Reachable source s) (hstep : s.step? source = some (.moved after)) : Reachable source after

/-- A scanner that is reached goes with the lexer. -/
theorem Reachable.exists_of {s : Scanner} (h : Reachable source s) :
    ∃ found st left, Segment.joined found ++ left = source ∧ s = of found st := by
  induction h with
  | initial => exact ⟨[], .initial, source, rfl, rfl⟩
  | step _ hstep ih =>
    obtain ⟨found, st, left, hs, rfl⟩ := ih
    cases left with
    | nil =>
      rw [step?_of_nil (by simpa using hs)] at hstep
      cases hstep
    | cons c rest =>
      rcases exists_step_or_stuck st c rest with ⟨more, after, left, h⟩ | ⟨more, e, h⟩
      · rw [step?_of_step hs h] at hstep
        cases hstep
        refine ⟨found ++ more, after, left, ?_, rfl⟩
        rw [Segment.joined_append, List.append_assoc, h.joined_append, hs]
      · rw [step?_of_stuck hs h] at hstep
        cases hstep

/-- A scanner that is reached takes a step without a cut that fails. -/
theorem Reachable.exists_step? {s : Scanner} (h : Reachable source s) : ∃ turn, s.step? source = some turn := by
  obtain ⟨found, st, left, hs, rfl⟩ := h.exists_of
  cases left with
  | nil => exact ⟨_, step?_of_nil (by simpa using hs)⟩
  | cons c rest =>
    rcases exists_step_or_stuck st c rest with ⟨more, after, left, h⟩ | ⟨more, e, h⟩
    · exact ⟨_, step?_of_step hs h⟩
    · exact ⟨_, step?_of_stuck hs h⟩

/-- Every length that is asked of a text ends between two characters of it. So a scanner that is reached from the beginning of
a source stands between two characters and takes a step, which cuts nothing inside a character and emits no token of no
bytes; if the step moves, the scanner has gone on; and the steps end with the tokens of the source or with its error. -/
theorem cuts_between_characters (source : String) :
    (∀ text, LengthsFit text) ∧
      (∀ s, Reachable source.toList s → Text.IsBoundary source.toList s.position.offset ∧
        ∃ turn, s.step? source.toList = some turn ∧ ∀ after, turn = .moved after → Advances source.toList s after) ∧
      run? source.toList initial = some (Python.tokens source) := by
  refine ⟨lengthsFit, ?_, run?_eq source⟩
  intro s hs
  obtain ⟨found, st, left, hsource, rfl⟩ := hs.exists_of
  obtain ⟨turn, hturn⟩ := hs.exists_step?
  refine ⟨⟨_, left, hsource, (offset_of found st).symm⟩, turn, hturn, ?_⟩
  rintro after rfl
  exact step?_advances hturn

/-- After the letter of a base the scanner stands before a character of two bytes, and goes over it. -/
theorem cuts_between_characters_accent :
    ∃ s after : Scanner, Reachable "0xé".toList s ∧ s.position.offset = 2 ∧ Text.IsBoundary "0xé".toList 2 ∧
      s.step? "0xé".toList = some (.moved after) ∧ after.position.offset = 4 ∧ Advances "0xé".toList s after := by
  let entered : Scanner := { initial with lineStart := false }
  let number : Scanner := ⟨⟨2, 1, 3⟩, [⟨"0x", Kind.number.category, defaultChannel, .start⟩], [0], 0, false, true⟩
  let name : Scanner :=
    ⟨⟨4, 1, 4⟩, ⟨"é", Kind.name.category, defaultChannel, ⟨2, 1, 3⟩⟩ :: number.tokens, [0], 0, false, true⟩
  have hentered : initial.step? "0xé".toList = some (.moved entered) := by decide +kernel
  have hnumber : entered.step? "0xé".toList = some (.moved number) := by decide +kernel
  have hname : number.step? "0xé".toList = some (.moved name) := by decide +kernel
  have hreached : Reachable "0xé".toList number := .step (.step .initial hentered) hnumber
  obtain ⟨-, hall, -⟩ := cuts_between_characters "0xé"
  obtain ⟨hboundary, turn, hturn, hadvances⟩ := hall number hreached
  exact ⟨number, name, hreached, rfl, hboundary, hname, rfl, hadvances name (Option.some.inj (hturn.symm.trans hname))⟩

end Lexeme.Python.Scanner
