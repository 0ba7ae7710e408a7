import Lexeme.Python.Lexer
import Lexeme.Proofs.Segment

/-!
# Runs of the Python lexer

The lexer is a machine that goes from a state and a text to the next state and the text that is left. A step is either
a look at the beginning of a line or one segment inside a line (`Step`), and a run is a sequence of steps (`Run`). A text
is cut along a run, either to its end or to where the run is stuck (`cut_ends`); the segments are those of the run and
those of the end of the text.

What is found at the beginning of a line is told once, by `indentation_cases`. What is shown of every step is shown of every
run by induction: `Run.joined_append` says that no character is lost.
-/

namespace Lexeme.Python

/-- The state at the first token of a line, when the line begins inside the blocks `levels`. -/
def State.enterLine (st : State) (levels : List Nat) : State :=
  ⟨levels, st.brackets, false, st.shown || st.levels.length < levels.length⟩

/-- One step of the lexer at a text that has not ended. -/
inductive Step : State → List Char → List (Segment Kind) → State → List Char → Prop
  | line {st : State} {c : Char} {rest : List Char} {found : List (Segment Kind)} {levels : List Nat}
      (hline : st.lineStart = true)
      (h : indentation st.levels (spanOf isBlank (c :: rest)).1 (spanOf isBlank (c :: rest)).2 = (found, levels, true)) :
      Step st (c :: rest) found (st.enterLine levels) (spanOf isBlank (c :: rest)).2
  | inside {st after : State} {c : Char} {rest left : List Char} {segment : Segment Kind} (hline : st.lineStart = false)
      (h : next st c rest = .ok (segment, after, left)) : Step st (c :: rest) [segment] after left

/-- Steps one after the other, with all their segments. -/
inductive Run : State → List Char → List (Segment Kind) → State → List Char → Prop
  | refl (st : State) (s : List Char) : Run st s [] st s
  | step {st mid last : State} {s t u : List Char} {found segments : List (Segment Kind)} (h : Step st s found mid t)
      (hrun : Run mid t segments last u) : Run st s (found ++ segments) last u

theorem Run.trans {st mid last : State} {s t u : List Char} {segments more : List (Segment Kind)}
    (h : Run st s segments mid t) (h' : Run mid t more last u) : Run st s (segments ++ more) last u := by
  induction h with
  | refl st s => exact h'
  | step hstep _ ih => rw [List.append_assoc]; exact .step hstep (ih h')

/-! ## At the beginning of a line -/

/-- Whether the text after the white space of a line shows that the line has no token. -/
def isSilentRest (rest : List Char) : Bool := rest.head?.all fun c => isLineBreak c || c = '#'

/-- White space that is not seen, if there is any. -/
def blankSegments (space : List Char) : List (Segment Kind) := if space = [] then [] else [⟨.skip, space⟩]

theorem eq_of_mem_blankSegments {space : List Char} {s : Segment Kind} (h : s ∈ blankSegments space) :
    s = ⟨.skip, space⟩ ∧ space ≠ [] := by
  unfold blankSegments at h
  split at h
  · cases h
  · next hspace => exact ⟨List.mem_singleton.mp h, hspace⟩

/-- What is done at the beginning of a line: nothing, if the line has no token or the width of the innermost block; else it
opens a block, or closes those that are wider. -/
theorem indentation_cases (levels : List Nat) (space rest : List Char) :
    ((isSilentRest rest = true ∨ indentWidth space = levels.head?.getD 0) ∧
      indentation levels space rest = (blankSegments space, levels, true)) ∨
    (isSilentRest rest = false ∧ levels.head?.getD 0 < indentWidth space ∧
      indentation levels space rest = ([⟨.indent, space⟩], indentWidth space :: levels, true)) ∨
    (isSilentRest rest = false ∧ indentWidth space < levels.head?.getD 0 ∧
      indentation levels space rest =
        (blankSegments space ++
            List.replicate (levels.length - (levels.dropWhile (indentWidth space < ·)).length) ⟨.dedent, []⟩,
          levels.dropWhile (indentWidth space < ·),
          decide ((levels.dropWhile (indentWidth space < ·)).head?.getD 0 = indentWidth space))) := by
  unfold indentation
  by_cases hflat : isSilentRest rest = true ∨ indentWidth space = levels.head?.getD 0
  · exact .inl ⟨hflat, if_pos hflat⟩
  · obtain ⟨hsilent, hwidth⟩ := not_or.mp hflat
    have hsilent : isSilentRest rest = false := by simpa using hsilent
    by_cases hdeeper : levels.head?.getD 0 < indentWidth space
    · exact .inr (.inl ⟨hsilent, hdeeper, (if_neg hflat).trans (if_pos hdeeper)⟩)
    · exact .inr (.inr ⟨hsilent, by omega, (if_neg hflat).trans (if_neg hdeeper)⟩)

/-! ## The text of a step -/

theorem joined_dedents (n : Nat) : Segment.joined (List.replicate n (⟨.dedent, []⟩ : Segment Kind)) = [] := by
  simp [Segment.joined]

theorem joined_blankSegments (space : List Char) : Segment.joined (blankSegments space) = space := by
  unfold blankSegments
  split
  · next h => rw [h, Segment.joined_nil]
  · simp

/-- The segments of white space are all of it, whatever the blocks are. -/
theorem joined_indentation (levels : List Nat) (space rest : List Char) :
    Segment.joined (indentation levels space rest).1 = space := by
  rcases indentation_cases levels space rest with ⟨-, h⟩ | ⟨-, -, h⟩ | ⟨-, -, h⟩
  · rw [h, joined_blankSegments]
  · rw [h]
    simp
  · rw [h, Segment.joined_append, joined_blankSegments, joined_dedents, List.append_nil]

/-- The segments of a step are what it takes off the text. -/
theorem Step.joined_append {st after : State} {s left : List Char} {found : List (Segment Kind)}
    (h : Step st s found after left) : Segment.joined found ++ left = s := by
  cases h with
  | @line c rest _ levels _ h =>
    have hspace := joined_indentation st.levels (spanOf isBlank (c :: rest)).1 (spanOf isBlank (c :: rest)).2
    rw [h] at hspace
    rw [hspace]
    exact spanOf_append isBlank (c :: rest)
  | inside _ h => simpa using (next_begins h).1

/-- The segments of a run are what it takes off the text. -/
theorem Run.joined_append {st last : State} {s left : List Char} {segments : List (Segment Kind)}
    (h : Run st s segments last left) : Segment.joined segments ++ left = s := by
  induction h with
  | refl st s => rfl
  | step hstep _ ih => rw [Segment.joined_append, List.append_assoc, ih, hstep.joined_append]

/-! ## The segments of a run -/

/-- What holds of all segments at the beginning of a line and inside lines holds of all segments of a step. -/
theorem Step.forall_mem {P : Segment Kind → Prop}
    (hline : ∀ {levels : List Nat} {space rest : List Char} {s : Segment Kind}, s ∈ (indentation levels space rest).1 → P s)
    (hinside : ∀ {st : State} {c : Char} {rest : List Char} {n : Next}, next st c rest = .ok n → P n.1)
    {st after : State} {t left : List Char} {found : List (Segment Kind)} (h : Step st t found after left) :
    ∀ s ∈ found, P s := by
  intro s hs
  cases h with
  | @line c rest _ _ _ h =>
    have hmem : s ∈ (indentation st.levels (spanOf isBlank (c :: rest)).1 (spanOf isBlank (c :: rest)).2).1 := by
      rw [h]
      exact hs
    exact hline hmem
  | inside _ h =>
    rw [List.mem_singleton.mp hs]
    exact hinside h

theorem Run.forall_mem {P : Segment Kind → Prop}
    (hline : ∀ {levels : List Nat} {space rest : List Char} {s : Segment Kind}, s ∈ (indentation levels space rest).1 → P s)
    (hinside : ∀ {st : State} {c : Char} {rest : List Char} {n : Next}, next st c rest = .ok n → P n.1)
    {st last : State} {t left : List Char} {segments : List (Segment Kind)} (h : Run st t segments last left) :
    ∀ s ∈ segments, P s := by
  induction h with
  | refl st t => exact List.forall_mem_nil _
  | step hstep _ ih => exact List.forall_mem_append.mpr ⟨hstep.forall_mem hline hinside, ih⟩

/-! ## Runs and cuts -/

/-- Where a run cannot go on: the segments that are found on the way to the failure, and the failure. -/
inductive Stuck : State → List Char → List (Segment Kind) → Failure → Prop
  | line {st : State} {c : Char} {rest : List Char} {found : List (Segment Kind)} {levels : List Nat}
      (hline : st.lineStart = true)
      (h : indentation st.levels (spanOf isBlank (c :: rest)).1 (spanOf isBlank (c :: rest)).2 = (found, levels, false)) :
      Stuck st (c :: rest) found .inconsistentDedent
  | inside {st : State} {c : Char} {rest : List Char} {e : Failure} (hline : st.lineStart = false)
      (h : next st c rest = .error e) : Stuck st (c :: rest) [] e

/-- A cut is a run to the end of the text, or to where the run is stuck. -/
inductive Ends (st : State) (s : List Char) : List (Segment Kind) → Option Failure → Prop
  | finished {segments : List (Segment Kind)} {last : State} (h : Run st s segments last []) :
      Ends st s (segments ++ finish last) none
  | stuck {segments found : List (Segment Kind)} {last : State} {left : List Char} {e : Failure}
      (h : Run st s segments last left) (hstuck : Stuck last left found e) : Ends st s (segments ++ found) (some e)

theorem Ends.step {st mid : State} {s t : List Char} {found segments : List (Segment Kind)} {failure : Option Failure}
    (hstep : Step st s found mid t) (h : Ends mid t segments failure) : Ends st s (found ++ segments) failure := by
  cases h with
  | finished h => rw [← List.append_assoc]; exact .finished (.step hstep h)
  | stuck h hstuck => rw [← List.append_assoc]; exact .stuck (.step hstep h) hstuck

/-- Whatever the state, the rest of a text is cut along a run; what was found before stays. -/
theorem cutFrom_ends (st : State) (done : List (Segment Kind)) (s : List Char) :
    ∃ segments, (cutFrom st done s).segments = done.reverse ++ segments ∧
      Ends st s segments (cutFrom st done s).failure := by
  fun_induction cutFrom st done s with
  | case1 st done => exact ⟨finish st, by simp, .finished (.refl st [])⟩
  | case2 st done c rest hline space found levels shown hfound ih =>
    obtain ⟨segments, hsegments, hends⟩ := ih
    exact ⟨found ++ segments, by simp [hsegments], .step (.line hline hfound) hends⟩
  | case3 st done c rest hline space found levels consistent hfound hconsistent =>
    obtain rfl : consistent = false := by simpa using hconsistent
    exact ⟨found, by simp, by simpa using Ends.stuck (.refl st _) (.line hline hfound)⟩
  | case4 st done c rest hline segment after left hnext ih =>
    obtain ⟨segments, hsegments, hends⟩ := ih
    exact ⟨segment :: segments, by simp [hsegments], .step (.inside (by simpa using hline) hnext) hends⟩
  | case5 st done c rest hline e hnext =>
    exact ⟨[], by simp, by simpa using Ends.stuck (.refl st _) (.inside (by simpa using hline) hnext)⟩

/-- A whole text is cut along a run from the initial state. -/
theorem cut_ends (s : List Char) : Ends .initial s (cut s).segments (cut s).failure := by
  obtain ⟨segments, hsegments, hends⟩ := cutFrom_ends .initial [] s
  rw [cut, hsegments]
  exact hends

/-- The tokens of a text come from a run that takes all of it, and from the end of the text. -/
theorem exists_run_of_tokens {source : String} {ts : List Token} (h : tokens source = .ok ts) :
    ∃ segments last, Run .initial source.toList segments last [] ∧
      ts = Segment.emitted Kind.place [] (segments ++ finish last) := by
  obtain ⟨hfailure, rfl⟩ := Cut.tokens_eq_ok_iff.mp h
  have hends := cut_ends source.toList
  rw [hfailure] at hends
  generalize (cut source.toList).segments = segments at hends
  cases hends with
  | finished hrun => exact ⟨_, _, hrun, rfl⟩

/-- A token has the category of the kind of its segment. -/
theorem category_of_token? {before : List Char} {s : Segment Kind} {t : Token}
    (h : Segment.token? Kind.place before s = some t) : t.category = s.kind.category := by
  have hplace := (Segment.token?_eq_some_iff.mp h).2.1
  exact (congrArg Prod.fst (Option.some.inj hplace)).symm

end Lexeme.Python
