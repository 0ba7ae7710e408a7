import Lexeme.Proofs.Python.SilentLines
import Mathlib.Data.List.Forall2

/-!
# Blocks

An `INDENT` opens a block that is wider than the innermost one, and a `DEDENT` closes the innermost (`Nested`). Every step
of the lexer, the end of the text, and even a step that fails open and close blocks in this way, so their widths always
go down from the innermost block to the outermost, and the number of open blocks is that of the `INDENT`s less that of the
`DEDENT`s.

What opens and closes blocks is the width of a line with a token on it, when the line begins outside brackets. Lines
without tokens change nothing (`run_silentLine`). Each segment becomes one token, which says what the segment does to the
blocks (`Marks`).
-/

namespace Lexeme.Python

/-! ## Widths -/

/-- Whether the widths of blocks, innermost first, go down to zero, the width of the outermost block. -/
def Descending (levels : List Nat) : Prop := (levels ++ [0]).Pairwise (· > ·)

/-- The number of segments of a kind. -/
def kindCount (kind : Kind) (segments : List (Segment Kind)) : Nat := (segments.map Segment.kind).count kind

@[simp] theorem kindCount_cons (kind : Kind) (s : Segment Kind) (segments : List (Segment Kind)) :
    kindCount kind (s :: segments) = kindCount kind segments + if s.kind = kind then 1 else 0 := by
  simp [kindCount, List.count_cons]

section

variable {levels : List Nat}

theorem Descending.tail {width : Nat} (h : Descending (width :: levels)) : Descending levels :=
  (List.pairwise_cons.mp h).2

theorem Descending.cons (h : Descending levels) {width : Nat} (hwidth : levels.head?.getD 0 < width) :
    Descending (width :: levels) := by
  refine List.pairwise_cons.mpr ⟨?_, h⟩
  intro w hw
  cases levels with
  | nil =>
    rw [List.mem_singleton.mp hw]
    exact hwidth
  | cons top rest =>
    rcases List.mem_cons.mp hw with rfl | hw
    · exact hwidth
    · exact Nat.lt_trans ((List.pairwise_cons.mp h).1 w hw) hwidth

/-- The blocks that are wider than a line come first. -/
theorem Descending.dropWhile_eq_filter (h : Descending levels) (width : Nat) :
    levels.dropWhile (width < ·) = levels.filter (· ≤ width) := by
  induction levels with
  | nil => rfl
  | cons top rest ih =>
    by_cases htop : width < top
    · rw [List.dropWhile_cons_of_pos (by simpa using htop), List.filter_cons_of_neg (by simpa using htop), ih h.tail]
    · -- no block outside this one is wider
      have hall : ∀ w ∈ top :: rest, w ≤ width := by
        intro w hw
        rcases List.mem_cons.mp hw with rfl | hw
        · exact Nat.not_lt.mp htop
        · have : top > w := (List.pairwise_cons.mp h).1 w (List.mem_append_left _ hw)
          omega
      rw [List.dropWhile_cons_of_neg (by simpa using htop), List.filter_eq_self.mpr (by simpa using hall)]

/-- The blocks that a line closes are those that are wider. -/
theorem Descending.length_sub_dropWhile (h : Descending levels) (width : Nat) :
    levels.length - (levels.dropWhile (width < ·)).length = (levels.filter (width < ·)).length := by
  have hsplit := List.length_eq_countP_add_countP (width < ·) (l := levels)
  simp only [decide_eq_true_eq, Nat.not_lt, List.countP_eq_length_filter] at hsplit
  rw [h.dropWhile_eq_filter]
  omega

/-- After that, the line has the width of the innermost block exactly when some open block has its width. -/
theorem Descending.head?_dropWhile_eq_iff (h : Descending levels) (width : Nat) :
    (levels.dropWhile (width < ·)).head?.getD 0 = width ↔ width ∈ levels ++ [0] := by
  induction levels with
  | nil => simp [eq_comm]
  | cons top rest ih =>
    by_cases htop : width < top
    · rw [List.dropWhile_cons_of_pos (by simpa using htop), ih h.tail, List.cons_append, List.mem_cons]
      simp [Nat.ne_of_lt htop]
    · rw [List.dropWhile_cons_of_neg (by simpa using htop), List.head?_cons, Option.getD_some, List.cons_append,
        List.mem_cons]
      constructor
      · exact fun hwidth => .inl hwidth.symm
      · rintro (hwidth | hmem)
        · exact hwidth.symm
        · have : top > width := (List.pairwise_cons.mp h).1 width hmem
          exact absurd this htop

end

/-! ## Nesting -/

/-- Segments that open and close blocks one at a time, from the blocks that are open before to those open after. -/
inductive Nested : List Nat → List (Segment Kind) → List Nat → Prop
  | nil (levels : List Nat) : Nested levels [] levels
  | indent {levels last : List Nat} {text : List Char} {segments : List (Segment Kind)}
      (hwidth : levels.head?.getD 0 < indentWidth text) (h : Nested (indentWidth text :: levels) segments last) :
      Nested levels (⟨.indent, text⟩ :: segments) last
  | dedent {width : Nat} {levels last : List Nat} {segments : List (Segment Kind)} (h : Nested levels segments last) :
      Nested (width :: levels) (⟨.dedent, []⟩ :: segments) last
  | other {levels last : List Nat} {s : Segment Kind} {segments : List (Segment Kind)}
      (hkind : s.kind ≠ .indent ∧ s.kind ≠ .dedent) (h : Nested levels segments last) : Nested levels (s :: segments) last

namespace Nested

variable {levels mid last : List Nat} {segments more : List (Segment Kind)}

theorem trans (h : Nested levels segments mid) (h' : Nested mid more last) : Nested levels (segments ++ more) last := by
  induction h with
  | nil => exact h'
  | indent hwidth _ ih => exact .indent hwidth (ih h')
  | dedent _ ih => exact .dedent (ih h')
  | other hkind _ ih => exact .other hkind (ih h')

/-- What stands before the end of some segments opens and closes blocks as well. -/
theorem exists_of_append (h : Nested levels (segments ++ more) last) :
    ∃ mid, Nested levels segments mid ∧ Nested mid more last := by
  induction segments generalizing levels with
  | nil => exact ⟨levels, .nil levels, h⟩
  | cons s segments ih =>
    cases h with
    | indent hwidth h =>
      obtain ⟨mid, hfirst, hlast⟩ := ih h
      exact ⟨mid, .indent hwidth hfirst, hlast⟩
    | dedent h =>
      obtain ⟨mid, hfirst, hlast⟩ := ih h
      exact ⟨mid, .dedent hfirst, hlast⟩
    | other hkind h =>
      obtain ⟨mid, hfirst, hlast⟩ := ih h
      exact ⟨mid, .other hkind hfirst, hlast⟩

theorem descending (h : Nested levels segments last) (hlevels : Descending levels) : Descending last := by
  induction h with
  | nil => exact hlevels
  | indent hwidth _ ih => exact ih (hlevels.cons hwidth)
  | dedent _ ih => exact ih hlevels.tail
  | other _ _ ih => exact ih hlevels

theorem length_add (h : Nested levels segments last) :
    last.length + kindCount .dedent segments = levels.length + kindCount .indent segments := by
  induction h with
  | nil => rfl
  | indent _ _ ih =>
    simp only [List.length_cons, kindCount_cons, reduceCtorEq, if_true, if_false] at ih ⊢
    omega
  | dedent _ ih =>
    simp only [List.length_cons, kindCount_cons, reduceCtorEq, if_true, if_false] at ih ⊢
    omega
  | other hkind _ ih =>
    simp only [kindCount_cons, hkind, if_false] at ih ⊢
    omega

/-- Closing the innermost blocks. -/
theorem dedents (closed kept : List Nat) : Nested (closed ++ kept) (List.replicate closed.length ⟨.dedent, []⟩) kept := by
  induction closed with
  | nil => exact .nil kept
  | cons width closed ih => exact .dedent ih

end Nested

/-! ## Steps -/

theorem nested_blankSegments (levels : List Nat) (space : List Char) : Nested levels (blankSegments space) levels := by
  unfold blankSegments
  split
  · exact .nil levels
  · exact .other (by simp) (.nil levels)

/-- The beginning of a line opens and closes blocks one at a time, whether or not its width is that of an open block. -/
theorem nested_indentation (levels : List Nat) (space rest : List Char) :
    Nested levels (indentation levels space rest).1 (indentation levels space rest).2.1 := by
  rcases indentation_cases levels space rest with ⟨-, h⟩ | ⟨-, hdeeper, h⟩ | ⟨-, -, h⟩
  · rw [h]
    exact nested_blankSegments levels space
  · rw [h]
    exact .indent hdeeper (.nil _)
  · rw [h]
    refine (nested_blankSegments levels space).trans ?_
    have hsplit := List.takeWhile_append_dropWhile (p := (indentWidth space < ·)) (l := levels)
    have hlength := congrArg List.length hsplit
    rw [List.length_append] at hlength
    have hdedents := Nested.dedents (levels.takeWhile (indentWidth space < ·)) (levels.dropWhile (indentWidth space < ·))
    rw [hsplit] at hdedents
    rwa [show (levels.takeWhile (indentWidth space < ·)).length =
      levels.length - (levels.dropWhile (indentWidth space < ·)).length by omega] at hdedents

theorem Inside.levels {st after : State} {s : Segment Kind} (h : Inside st s after) :
    (s.kind ≠ .indent ∧ s.kind ≠ .dedent) ∧ after.levels = st.levels := by
  have hplain {kind : Kind} (hkind : kind.IsPlain) : kind ≠ .indent ∧ kind ≠ .dedent := by
    constructor <;> rintro rfl <;> exact hkind
  cases h with
  | newline => simp
  | lineEnd => simp
  | hidden _ hkind => rcases hkind with rfl | rfl <;> simp
  | plain _ hkind => exact ⟨hplain hkind, rfl⟩
  | operator => simp

theorem Step.nested {st after : State} {t left : List Char} {found : List (Segment Kind)} (h : Step st t found after left) :
    Nested st.levels found after.levels := by
  cases h with
  | @line c rest _ levels _ h =>
    have hnested := nested_indentation st.levels (spanOf isBlank (c :: rest)).1 (spanOf isBlank (c :: rest)).2
    rwa [h] at hnested
  | inside _ h =>
    obtain ⟨hkind, hlevels⟩ := (next_inside h).levels
    rw [hlevels]
    exact .other hkind (.nil _)

theorem Run.nested {st last : State} {t left : List Char} {segments : List (Segment Kind)}
    (h : Run st t segments last left) : Nested st.levels segments last.levels := by
  induction h with
  | refl st t => exact .nil _
  | step hstep _ ih => exact hstep.nested.trans ih

theorem Stuck.nested {st : State} {t : List Char} {found : List (Segment Kind)} {e : Failure} (h : Stuck st t found e) :
    ∃ levels, Nested st.levels found levels := by
  cases h with
  | @line c rest _ levels _ h =>
    have hnested := nested_indentation st.levels (spanOf isBlank (c :: rest)).1 (spanOf isBlank (c :: rest)).2
    rw [h] at hnested
    exact ⟨levels, hnested⟩
  | inside => exact ⟨_, .nil _⟩

/-- The end of the text closes all blocks. -/
theorem nested_finish (st : State) : Nested st.levels (finish st) [] := by
  have hdedents := Nested.dedents st.levels []
  rw [List.append_nil] at hdedents
  unfold finish
  split
  · exact .other (by simp) hdedents
  · exact hdedents

/-- Up to its end or to its failure, a text opens and closes blocks one at a time. -/
theorem exists_nested_cut (s : List Char) :
    ∃ last, Nested [] (cut s).segments last ∧ ((cut s).failure = none → last = []) := by
  have hends := cut_ends s
  generalize (cut s).segments = segments, (cut s).failure = failure at hends
  cases hends with
  | finished h => exact ⟨[], h.nested.trans (nested_finish _), fun _ => rfl⟩
  | stuck h hstuck =>
    obtain ⟨last, hlast⟩ := hstuck.nested
    exact ⟨last, h.nested.trans hlast, nofun⟩

/-! ## The beginning of a line -/

/-- The white space at the beginning of a text. -/
def leadingSpace (s : List Char) : List Char := (spanOf isBlank s).1

/-- What follows the white space at the beginning of a text. -/
def afterSpace (s : List Char) : List Char := (spanOf isBlank s).2

section

variable {st after : State} {left left' : List Char} {found : List (Segment Kind)}

/-- The only step at the beginning of a line is the look at its white space. -/
theorem step_iff_of_lineStart (hline : st.lineStart = true) (hleft : left ≠ []) :
    Step st left found after left' ↔
      ∃ levels, indentation st.levels (leadingSpace left) (afterSpace left) = (found, levels, true) ∧
        after = st.enterLine levels ∧ left' = afterSpace left := by
  constructor
  · intro h
    cases h with
    | line _ h => exact ⟨_, h, rfl, rfl⟩
    | inside hinside => exact absurd hline (by simp [hinside])
  · rintro ⟨levels, h, rfl, rfl⟩
    obtain ⟨c, rest, rfl⟩ := List.exists_cons_of_ne_nil hleft
    exact .line hline h

/-- At the beginning of a line the only failure is about its width. -/
theorem stuck_iff_of_lineStart (hline : st.lineStart = true) (hleft : left ≠ []) {e : Failure} :
    Stuck st left found e ↔
      (∃ levels, indentation st.levels (leadingSpace left) (afterSpace left) = (found, levels, false)) ∧
        e = .inconsistentDedent := by
  constructor
  · intro h
    cases h with
    | line _ h => exact ⟨⟨_, h⟩, rfl⟩
    | inside hinside => exact absurd hline (by simp [hinside])
  · rintro ⟨⟨levels, h⟩, rfl⟩
    obtain ⟨c, rest, rfl⟩ := List.exists_cons_of_ne_nil hleft
    exact .line hline h

theorem ne_nil_of_isSilentRest (h : isSilentRest (afterSpace left) = false) : left ≠ [] := by
  rintro rfl
  cases h

end

section

variable {levels : List Nat} {space rest : List Char}

theorem indentation_of_eq (hwidth : indentWidth space = levels.head?.getD 0) :
    indentation levels space rest = (blankSegments space, levels, true) := by
  rcases indentation_cases levels space rest with ⟨-, h⟩ | ⟨-, hlt, -⟩ | ⟨-, hgt, -⟩
  · exact h
  · omega
  · omega

theorem indentation_of_lt (hrest : isSilentRest rest = false) (hwidth : levels.head?.getD 0 < indentWidth space) :
    indentation levels space rest = ([⟨.indent, space⟩], indentWidth space :: levels, true) := by
  rcases indentation_cases levels space rest with ⟨hsilent | heq, -⟩ | ⟨-, -, h⟩ | ⟨-, hgt, -⟩
  · rw [hrest] at hsilent
    cases hsilent
  · omega
  · exact h
  · omega

theorem indentation_of_gt (hrest : isSilentRest rest = false) (hlevels : Descending levels)
    (hwidth : indentWidth space < levels.head?.getD 0) :
    indentation levels space rest =
      (blankSegments space ++ List.replicate (levels.filter (indentWidth space < ·)).length ⟨.dedent, []⟩,
        levels.filter (· ≤ indentWidth space), decide (indentWidth space ∈ levels ++ [0])) := by
  rcases indentation_cases levels space rest with ⟨hsilent | heq, -⟩ | ⟨-, hlt, -⟩ | ⟨-, -, h⟩
  · rw [hrest] at hsilent
    cases hsilent
  · omega
  · omega
  · rw [h, hlevels.length_sub_dropWhile, ← hlevels.dropWhile_eq_filter,
      decide_eq_decide.mpr (hlevels.head?_dropWhile_eq_iff _)]

end

/-- What is found at the beginning of a line that closes blocks: one `DEDENT` for every block that is wider. -/
def closing (st : State) (left : List Char) : List (Segment Kind) :=
  blankSegments (leadingSpace left) ++
    List.replicate (st.levels.filter (indentWidth (leadingSpace left) < ·)).length ⟨.dedent, []⟩

/-- The indentation fails exactly at the beginning of a line with a token, when the width of the line is less than that of
the innermost block and not that of any other. -/
theorem stuck_inconsistentDedent_iff {st : State} (hlevels : Descending st.levels) {left : List Char}
    {found : List (Segment Kind)} :
    Stuck st left found .inconsistentDedent ↔
      st.lineStart = true ∧ isSilentRest (afterSpace left) = false ∧ indentWidth (leadingSpace left) < st.width ∧
        indentWidth (leadingSpace left) ∉ st.levels ++ [0] ∧ found = closing st left := by
  constructor
  · intro h
    have hline : st.lineStart = true := by
      cases h with
      | line hline => exact hline
      | inside _ h => exact absurd rfl (ne_inconsistentDedent_of_next h)
    have hleft : left ≠ [] := by cases h <;> exact List.cons_ne_nil _ _
    obtain ⟨⟨levels, h⟩, -⟩ := (stuck_iff_of_lineStart hline hleft).mp h
    rcases indentation_cases st.levels (leadingSpace left) (afterSpace left) with ⟨-, h'⟩ | ⟨-, -, h'⟩ | ⟨hrest, hwidth, -⟩
    · cases h.symm.trans h'
    · cases h.symm.trans h'
    · rw [indentation_of_gt hrest hlevels hwidth] at h
      obtain ⟨hfound, -, hmem⟩ : _ = _ ∧ _ = _ ∧ _ = _ := by simpa only [Prod.mk.injEq] using h
      exact ⟨hline, hrest, hwidth, of_decide_eq_false hmem, hfound.symm⟩
  · rintro ⟨hline, hrest, hwidth, hmem, rfl⟩
    have h := indentation_of_gt hrest hlevels hwidth
    rw [decide_eq_false hmem] at h
    exact (stuck_iff_of_lineStart hline (ne_nil_of_isSilentRest hrest)).mpr ⟨⟨_, h⟩, rfl⟩

theorem joined_closing (st : State) (left : List Char) : Segment.joined (closing st left) = leadingSpace left := by
  rw [closing, Segment.joined_append, joined_blankSegments, joined_dedents, List.append_nil]

/-! ## Tokens -/

/-- Whether a token has the text of a segment, and is called `INDENT` or `DEDENT` exactly when the segment is one. -/
structure Marks (s : Segment Kind) (t : Token) : Prop where
  text_eq : t.text = String.ofList s.text
  indent_iff : symbolOf t = some "INDENT" ↔ s.kind = .indent
  dedent_iff : symbolOf t = some "DEDENT" ↔ s.kind = .dedent

theorem marks_of_token? {before : List Char} {s : Segment Kind} {t : Token} (hs : s.kind.Proper)
    (h : Segment.token? Kind.place before s = some t) : Marks s t := by
  have hsymbol := symbolOf_of_token? hs h
  refine ⟨(Segment.token?_eq_some_iff.mp h).1, ?_, ?_⟩
  · rw [hsymbol]
    exact Kind.symbol?_eq_iff .indent rfl
  · rw [hsymbol]
    exact Kind.symbol?_eq_iff .dedent rfl

/-- Segments become tokens one by one. -/
theorem forall₂_marks {segments : List (Segment Kind)} (h : ∀ s ∈ segments, s.kind.Proper) (before : List Char) :
    List.Forall₂ Marks segments (Segment.emitted Kind.place before segments) := by
  induction segments generalizing before with
  | nil => exact .nil
  | cons s rest ih =>
    obtain ⟨hs, hrest⟩ := List.forall_mem_cons.mp h
    exact .cons (marks_of_token? hs rfl) (ih hrest _)

/-- What a run has found is the beginning of the cut. -/
theorem Run.prefix_cut {s left : List Char} {segments : List (Segment Kind)} {st : State}
    (h : Run .initial s segments st left) : segments <+: (cut s).segments := by
  obtain ⟨more, hmore, -⟩ := cutFrom_ends st (segments.reverse ++ []) left
  rw [cut, cutFrom_of_run h, hmore]
  exact ⟨more, by simp⟩

/-- The number of tokens that are called by a name. -/
def symbolCount (name : String) (ts : List Token) : Nat := (ts.map symbolOf).count (some name)

/-- The tokens of a named kind are counted by their name. -/
theorem symbolCount_eq {ts : List Token} {segments : List (Segment Kind)} (kind : Kind) {name : String}
    (hname : kind.symbol? = some name) (h : ts.map symbolOf = segments.map (·.kind.symbol?)) :
    symbolCount name ts = kindCount kind segments := by
  rw [symbolCount, h, ← hname]
  clear h
  induction segments with
  | nil => rfl
  | cons s rest ih => simp [List.count_cons, ih, Kind.symbol?_eq_iff kind (by simp [hname])]

/-- Among the first tokens of a text there are not more `DEDENT`s than `INDENT`s, and in all there are as many. -/
theorem symbolCount_dedent_le {source : String} {ts : List Token} (h : tokens source = .ok ts) :
    (∀ first, first <+: ts → symbolCount "DEDENT" first ≤ symbolCount "INDENT" first) ∧
      symbolCount "DEDENT" ts = symbolCount "INDENT" ts := by
  obtain ⟨segments, last, hrun, rfl⟩ := exists_run_of_tokens h
  have hsymbols := map_symbolOf_emitted (proper_of_run hrun) []
  have hnested : Nested [] (segments ++ finish last) [] := hrun.nested.trans (nested_finish last)
  refine ⟨?_, ?_⟩
  · rintro first ⟨rest, hfirst⟩
    rw [← hfirst, List.map_append] at hsymbols
    obtain ⟨before, after, hsplit, hbefore, -⟩ := List.map_eq_append_iff.mp hsymbols.symm
    rw [hsplit] at hnested
    obtain ⟨levels, hlevels, -⟩ := hnested.exists_of_append
    have hlength := hlevels.length_add
    rw [List.length_nil, Nat.zero_add] at hlength
    rw [symbolCount_eq .dedent rfl hbefore.symm, symbolCount_eq .indent rfl hbefore.symm]
    omega
  · have hlength := hnested.length_add
    rw [List.length_nil, Nat.zero_add, Nat.zero_add] at hlength
    rw [symbolCount_eq .dedent rfl hsymbols, symbolCount_eq .indent rfl hsymbols, hlength]

/-! ## The discipline -/

/-- How columns are counted. -/
structure CountsColumns (width : List Char → Nat) : Prop where
  nil : width [] = 0
  blank : ∀ space, width (space ++ [' ']) = width space + 1
  /-- A tab leads to the next multiple of eight. -/
  tab : ∀ space, 8 ∣ width (space ++ ['\t']) ∧ width space < width (space ++ ['\t']) ∧
    width (space ++ ['\t']) ≤ width space + 8
  formFeed : ∀ space, width (space ++ ['\x0c']) = 0

theorem countsColumns_indentWidth : CountsColumns indentWidth where
  nil := rfl
  blank space := by simp [indentWidth]
  tab space := by
    have htab : indentWidth (space ++ ['\t']) = (indentWidth space / 8 + 1) * 8 := by simp [indentWidth]
    rw [htab]
    omega
  formFeed space := by simp [indentWidth]

/-- How `INDENT` and `DEDENT` follow the widths of the lines of a text. -/
structure BlockDiscipline (source : String) : Prop where
  /-- In every state, the widths of the open blocks go down from the innermost block to the outermost, of width zero. -/
  descending : ∀ {segments st left}, Run .initial source.toList segments st left → Descending st.levels
  /-- In every state, there are as many open blocks as there were `INDENT`s, less the `DEDENT`s. -/
  length_levels : ∀ {segments st left}, Run .initial source.toList segments st left →
    st.levels.length + kindCount .dedent segments = kindCount .indent segments
  /-- The same is true between the segments of one step, in a step that fails, and at the end of the text. -/
  nested : ∀ {first}, first <+: (cut source.toList).segments → ∃ levels, Nested [] first levels ∧ Descending levels ∧
    levels.length + kindCount .dedent first = kindCount .indent first
  /-- In every state, each segment has become one token, which is called `INDENT` or `DEDENT` exactly when the segment is one;
  these are the first tokens of the text, if it is accepted. -/
  marks : ∀ {segments st left}, Run .initial source.toList segments st left →
    List.Forall₂ Marks segments (Segment.emitted Kind.place [] segments) ∧
      ∀ {ts}, tokens source = .ok ts → Segment.emitted Kind.place [] segments <+: ts
  /-- At the end of an accepted text, all its segments have become its tokens in this way. -/
  marks_all : ∀ {ts}, tokens source = .ok ts → List.Forall₂ Marks (cut source.toList).segments ts
  /-- A line begins at the beginning of the text or after the end of a line, and outside brackets. -/
  lineStart : ∀ {segments st left}, Run .initial source.toList segments st left → st.lineStart = true →
    EndsLine segments ∧ st.brackets = 0
  /-- Wherever that is so, a line begins. -/
  exists_lineStart : ∀ {segments st left}, Run .initial source.toList segments st left → EndsLine segments →
    st.brackets = 0 → ∃ st', Run .initial source.toList segments st' left ∧ st'.lineStart = true
  /-- A line with a token that is wider than the innermost block begins with one `INDENT`, and opens a block. -/
  deeper : ∀ {segments st left}, Run .initial source.toList segments st left → st.lineStart = true →
    isSilentRest (afterSpace left) = false → st.width < indentWidth (leadingSpace left) → ∀ {found after left'},
      Step st left found after left' ↔ found = [⟨.indent, leadingSpace left⟩] ∧
        after = st.enterLine (indentWidth (leadingSpace left) :: st.levels) ∧ left' = afterSpace left
  /-- A line with a token and the width of the innermost block changes nothing. -/
  level : ∀ {segments st left}, Run .initial source.toList segments st left → st.lineStart = true →
    isSilentRest (afterSpace left) = false → indentWidth (leadingSpace left) = st.width → ∀ {found after left'},
      Step st left found after left' ↔ found = blankSegments (leadingSpace left) ∧
        after = st.enterLine st.levels ∧ left' = afterSpace left
  /-- A less wide line with a token closes the blocks that are wider, each with one `DEDENT`, and goes on if its width is
  that of an open block. -/
  shallower : ∀ {segments st left}, Run .initial source.toList segments st left → st.lineStart = true →
    isSilentRest (afterSpace left) = false → indentWidth (leadingSpace left) < st.width → ∀ {found after left'},
      Step st left found after left' ↔ indentWidth (leadingSpace left) ∈ st.levels ++ [0] ∧ found = closing st left ∧
        after = st.enterLine (st.levels.filter (· ≤ indentWidth (leadingSpace left))) ∧ left' = afterSpace left
  /-- The text is refused for its indentation exactly when such a line has not the width of an open block, at the place
  where the white space of the line ends. -/
  refused : ∀ p, tokens source = .error (.inconsistentDedent p) ↔
    ∃ segments st left, Run .initial source.toList segments st left ∧ st.lineStart = true ∧
      isSilentRest (afterSpace left) = false ∧ indentWidth (leadingSpace left) < st.width ∧
      indentWidth (leadingSpace left) ∉ st.levels ++ [0] ∧
      p = Position.start.advanceBy (Segment.joined segments ++ leadingSpace left)
  /-- A line of white space or with a comment only, whether it begins outside brackets or stands inside, shows nothing and
  leaves the blocks as they are. -/
  silentLine : ∀ {segments st line tail}, Run .initial source.toList segments st (line ++ tail) →
    st.lineStart = true ∨ st.brackets ≠ 0 → IsSilentLine line → AtLineEnd tail → ∃ found after,
      Run st (line ++ tail) found after (lineBreak tail).2 ∧
        (∀ s ∈ found, s.kind.channel = hiddenChannel) ∧ after.levels = st.levels
  /-- In an accepted text `INDENT`s and `DEDENT`s balance like brackets. -/
  balanced : ∀ {ts}, tokens source = .ok ts →
    (∀ first, first <+: ts → symbolCount "DEDENT" first ≤ symbolCount "INDENT" first) ∧
      symbolCount "DEDENT" ts = symbolCount "INDENT" ts

theorem descending_of_run {s left : List Char} {segments : List (Segment Kind)} {st : State}
    (h : Run .initial s segments st left) : Descending st.levels :=
  h.nested.descending (List.pairwise_singleton _ _)

/-- Where the indentation of a text is refused. -/
theorem tokens_eq_inconsistentDedent_iff {source : String} {p : Position} :
    tokens source = .error (.inconsistentDedent p) ↔
      ∃ segments st left, Run .initial source.toList segments st left ∧ st.lineStart = true ∧
        isSilentRest (afterSpace left) = false ∧ indentWidth (leadingSpace left) < st.width ∧
        indentWidth (leadingSpace left) ∉ st.levels ++ [0] ∧
        p = Position.start.advanceBy (Segment.joined segments ++ leadingSpace left) := by
  rw [tokens, Cut.tokens_eq_error_iff]
  constructor
  · rintro ⟨failure, hfailure, herror⟩
    obtain ⟨rfl, hp⟩ : failure = .inconsistentDedent ∧ p = _ := by
      cases failure <;> simp [Failure.error] at herror
      exact ⟨rfl, herror⟩
    have hends := cut_ends source.toList
    rw [hfailure] at hends
    generalize (cut source.toList).segments = all at hends hp
    cases hends with
    | stuck hrun hstuck =>
      obtain ⟨hline, hrest, hwidth, hmem, rfl⟩ := (stuck_inconsistentDedent_iff (descending_of_run hrun)).mp hstuck
      rw [Segment.joined_append, joined_closing] at hp
      exact ⟨_, _, _, hrun, hline, hrest, hwidth, hmem, hp⟩
  · rintro ⟨segments, st, left, hrun, hline, hrest, hwidth, hmem, rfl⟩
    have hstuck := (stuck_inconsistentDedent_iff (descending_of_run hrun)).mpr ⟨hline, hrest, hwidth, hmem, rfl⟩
    rw [cut_of_stuck hrun hstuck]
    exact ⟨.inconsistentDedent, rfl, by rw [Segment.joined_append, joined_closing]; rfl⟩

/-- In every text blocks are opened and closed by the widths of its lines. -/
theorem blockDiscipline : CountsColumns indentWidth ∧ ∀ source, BlockDiscipline source := by
  refine ⟨countsColumns_indentWidth, fun source => ?_⟩
  constructor
  case descending => exact descending_of_run
  case length_levels =>
    intro segments st left h
    exact h.nested.length_add.trans (Nat.zero_add _)
  case nested =>
    rintro first ⟨rest, hfirst⟩
    obtain ⟨last, hlast, -⟩ := exists_nested_cut source.toList
    rw [← hfirst] at hlast
    obtain ⟨levels, hlevels, -⟩ := hlast.exists_of_append
    exact ⟨levels, hlevels, hlevels.descending (List.pairwise_singleton _ _),
      hlevels.length_add.trans (Nat.zero_add _)⟩
  case marks =>
    intro segments st left h
    refine ⟨forall₂_marks h.proper [], fun {ts} hts => ?_⟩
    obtain ⟨-, rfl⟩ := Cut.tokens_eq_ok_iff.mp hts
    obtain ⟨more, hmore⟩ := h.prefix_cut
    rw [← hmore, Segment.emitted_append]
    exact List.prefix_append _ _
  case marks_all =>
    intro ts hts
    obtain ⟨segments, last, hrun, rfl⟩ := exists_run_of_tokens hts
    rw [cut_of_run hrun]
    exact forall₂_marks (proper_of_run hrun) []
  case lineStart => exact fun h hline => ⟨h.endsLine hline, (h.settled hline).1⟩
  case exists_lineStart => exact fun h hends hbrackets => h.exists_lineStart hends hbrackets
  case deeper =>
    intro segments st left _ hline hrest hwidth found after left'
    rw [step_iff_of_lineStart hline (ne_nil_of_isSilentRest hrest), indentation_of_lt hrest hwidth]
    constructor
    · rintro ⟨levels, h, rfl, rfl⟩
      cases h
      exact ⟨rfl, rfl, rfl⟩
    · rintro ⟨rfl, rfl, rfl⟩
      exact ⟨_, rfl, rfl, rfl⟩
  case level =>
    intro segments st left _ hline hrest hwidth found after left'
    rw [step_iff_of_lineStart hline (ne_nil_of_isSilentRest hrest), indentation_of_eq hwidth]
    constructor
    · rintro ⟨levels, h, rfl, rfl⟩
      cases h
      exact ⟨rfl, rfl, rfl⟩
    · rintro ⟨rfl, rfl, rfl⟩
      exact ⟨_, rfl, rfl, rfl⟩
  case shallower =>
    intro segments st left h hline hrest hwidth found after left'
    rw [step_iff_of_lineStart hline (ne_nil_of_isSilentRest hrest), indentation_of_gt hrest (descending_of_run h) hwidth]
    simp only [Prod.mk.injEq, decide_eq_true_eq]
    constructor
    · rintro ⟨levels, ⟨rfl, rfl, hmem⟩, rfl, rfl⟩
      exact ⟨hmem, rfl, rfl, rfl⟩
    · rintro ⟨hmem, rfl, rfl, rfl⟩
      exact ⟨_, ⟨rfl, rfl, hmem⟩, rfl, rfl⟩
  case refused => exact fun p => tokens_eq_inconsistentDedent_iff
  case silentLine =>
    intro segments st line tail h hquiet hline htail
    obtain ⟨found, after, hrun, hhidden, hlevels, -⟩ := run_silentLine h.settled hquiet hline htail
    exact ⟨found, after, hrun, fun s hs => (hhidden s hs).channel_eq, hlevels⟩
  case balanced => exact symbolCount_dedent_le

/-- Two blocks, the inner one indented by a tab, which end together at a line whose width a form feed resets. -/
def nestedBlocks : String := "if a\n  if b\n\tc\n \x0cd\n"

/-- Each block of the text begins with an `INDENT` and ends with a `DEDENT`; a line that is less wide than a block but wider
than the one around it is refused. -/
theorem blockDiscipline_nestedBlocks :
    BlockDiscipline nestedBlocks ∧
      (∃ ts, tokens nestedBlocks = .ok ts ∧ List.Forall₂ Marks (cut nestedBlocks.toList).segments ts ∧
        ts.map (fun t => (symbolOf t, t.text)) =
          [(none, "if"), (some "SKIP_", " "), (some "NAME", "a"), (some "NEWLINE", "\n"),
            (some "INDENT", "  "), (none, "if"), (some "SKIP_", " "), (some "NAME", "b"), (some "NEWLINE", "\n"),
            (some "INDENT", "\t"), (some "NAME", "c"), (some "NEWLINE", "\n"), (some "SKIP_", " \x0c"),
            (some "DEDENT", ""), (some "DEDENT", ""), (some "NAME", "d"), (some "NEWLINE", "\n")]) ∧
      tokens "if a\n    b\n  c\n" = .error (.inconsistentDedent ⟨13, 3, 3⟩) := by
  have hdiscipline := blockDiscipline.2 nestedBlocks
  have htokens : (tokens nestedBlocks).toOption.map (List.map fun t => (symbolOf t, t.text)) =
      some [(none, "if"), (some "SKIP_", " "), (some "NAME", "a"), (some "NEWLINE", "\n"),
        (some "INDENT", "  "), (none, "if"), (some "SKIP_", " "), (some "NAME", "b"), (some "NEWLINE", "\n"),
        (some "INDENT", "\t"), (some "NAME", "c"), (some "NEWLINE", "\n"), (some "SKIP_", " \x0c"),
        (some "DEDENT", ""), (some "DEDENT", ""), (some "NAME", "d"), (some "NEWLINE", "\n")] := by decide +kernel
  refine ⟨hdiscipline, ?_, by decide +kernel⟩
  cases h : tokens nestedBlocks with
  | error e => rw [h] at htokens; cases htokens
  | ok ts =>
    rw [h] at htokens
    exact ⟨ts, rfl, hdiscipline.marks_all h, Option.some.inj htokens⟩

end Lexeme.Python
