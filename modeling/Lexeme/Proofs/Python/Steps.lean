import Mathlib.Data.List.TakeWhile
import Mathlib.Tactic.SplitIfs
import Lexeme.Proofs.Python.Run

/-!
# What a step can do

Every fact about runs of the lexer rests on what one step can do. At the beginning of a line that is told by
`indentation_cases`, and inside a line by `Inside`: which segments can be found there, and what the lexer remembers after
each (`next_inside`).

A run is determined by where it begins (`cutFrom_of_run`), so whatever is reached by some run is reached by the cut.
-/

namespace Lexeme.Python

/-! ## Ends of lines -/

theorem isLineBreak_iff {c : Char} : isLineBreak c = true ↔ c = '\n' ∨ c = '\r' := by
  simp [isLineBreak]

/-- The texts that end a line. -/
def IsLineEnd (text : List Char) : Prop := text = ['\n'] ∨ text = ['\r'] ∨ text = ['\r', '\n']

theorem isLineEnd_lineBreak {c : Char} (h : isLineBreak c = true) (rest : List Char) :
    IsLineEnd (lineBreak (c :: rest)).1 := by
  unfold lineBreak
  split
  · exact .inr (.inr rfl)
  · next first _ _ hcons =>
    obtain ⟨rfl, -⟩ := List.cons.inj hcons
    rcases isLineBreak_iff.mp h with rfl | rfl
    · exact .inl rfl
    · exact .inr (.inl rfl)
  · next hnil => cases hnil

/-- A text that ends a line begins with a line break. -/
theorem IsLineEnd.isLineBreak {text rest s : List Char} {c : Char} (h : IsLineEnd text) (hs : text ++ rest = c :: s) :
    isLineBreak c = true := by
  rcases h with rfl | rfl | rfl <;>
  · obtain ⟨rfl, -⟩ := List.cons.inj hs
    rfl

theorem IsLineEnd.exists_isLineBreak {text : List Char} (h : IsLineEnd text) :
    ∃ c ∈ text, Python.isLineBreak c = true := by
  rcases h with rfl | rfl | rfl <;> exact ⟨_, List.mem_cons_self, rfl⟩

theorem not_isLineBreak_of_isBlank {c : Char} (h : isBlank c = true) : isLineBreak c = false := by
  have hc : (c = ' ' ∨ c = '\t') ∨ c = '\x0c' := by simpa [isBlank] using h
  rcases hc with (rfl | rfl) | rfl <;> rfl

/-! ## Kinds -/

/-- Strings, numbers and words. -/
def Kind.IsPlain : Kind → Prop
  | .string | .number | .name => True
  | .keyword index => index < keywords.length
  | _ => False

/-- Blanks and comments. -/
def Kind.IsHidden (kind : Kind) : Prop := kind = .skip ∨ kind = .comment

theorem isPlain_wordKind (word : List Char) : (wordKind word).IsPlain := by
  unfold wordKind
  split
  · next index h =>
    obtain ⟨hlt, -⟩ := List.idxOf?_eq_some_iff.mp h
    exact hlt
  · trivial

theorem wordKind_ne_string (word : List Char) : wordKind word ≠ .string := by
  unfold wordKind
  split <;> simp

theorem getElem?_operators_of_mem {o : List Char × Nat} (h : o ∈ operatorsByLength) :
    operators[o.2]? = some (String.ofList o.1) := by
  obtain ⟨⟨text, index⟩, hmem, rfl⟩ := List.mem_map.mp (List.mem_mergeSort.mp h)
  simpa using List.mem_zipIdx_iff_getElem?.mp hmem

/-! ## At the beginning of a line and at the end of the text -/

/-- Before the first token of a line there are only blanks and marks of blocks, each with all the white space or without
text. -/
theorem of_mem_indentation {levels : List Nat} {space rest : List Char} {s : Segment Kind}
    (hs : s ∈ (indentation levels space rest).1) :
    (s.kind = .skip ∨ s.kind = .indent ∨ s.kind = .dedent) ∧ (s.text = space ∨ s.text = []) := by
  have hblank (h : s ∈ blankSegments space) :
      (s.kind = .skip ∨ s.kind = .indent ∨ s.kind = .dedent) ∧ (s.text = space ∨ s.text = []) := by
    rw [(eq_of_mem_blankSegments h).1]
    exact ⟨.inl rfl, .inl rfl⟩
  rcases indentation_cases levels space rest with ⟨-, h⟩ | ⟨-, -, h⟩ | ⟨-, -, h⟩
  · exact hblank (by rwa [h] at hs)
  · rw [h] at hs
    rw [List.mem_singleton.mp hs]
    exact ⟨.inr (.inl rfl), .inl rfl⟩
  · rw [h] at hs
    rcases List.mem_append.mp hs with hs | hs
    · exact hblank hs
    · rw [List.eq_of_mem_replicate hs]
      exact ⟨.inr (.inr rfl), .inr rfl⟩

/-- At the end of the text lines and blocks end, which takes no text. -/
theorem of_mem_finish {st : State} {s : Segment Kind} (hs : s ∈ finish st) :
    (s.kind = .newline ∨ s.kind = .dedent) ∧ s.text = [] := by
  unfold finish at hs
  rcases List.mem_append.mp hs with hs | hs
  · split at hs
    · rw [List.mem_singleton.mp hs]
      exact ⟨.inl rfl, rfl⟩
    · cases hs
  · rw [List.eq_of_mem_replicate hs]
    exact ⟨.inr rfl, rfl⟩

/-! ## Inside a line -/

section

variable (st : State) (operator : List Char)

@[simp] theorem State.levels_countBracket : (st.countBracket operator).levels = st.levels := by
  unfold State.countBracket
  split_ifs <;> rfl

@[simp] theorem State.lineStart_countBracket : (st.countBracket operator).lineStart = st.lineStart := by
  unfold State.countBracket
  split_ifs <;> rfl

end

/-- A segment that can be found inside a line, and the state after it. -/
inductive Inside (st : State) : Segment Kind → State → Prop
  | newline {text : List Char} (htext : IsLineEnd text) (hbrackets : st.brackets = 0) (hshown : st.shown = true) :
      Inside st ⟨.newline, text⟩ { st with lineStart := true, shown := false }
  | lineEnd {text : List Char} (htext : IsLineEnd text) (h : ¬(st.brackets = 0 ∧ st.shown = true)) :
      Inside st ⟨.skip, text⟩ { st with lineStart := st.brackets = 0 }
  | hidden {kind : Kind} {text : List Char} (htext : ¬IsLineEnd text) (h : kind.IsHidden) : Inside st ⟨kind, text⟩ st
  | plain {kind : Kind} {text : List Char} (htext : ¬IsLineEnd text) (h : kind.IsPlain) :
      Inside st ⟨kind, text⟩ { st with shown := true }
  | operator {index : Nat} {text : List Char} (htext : ¬IsLineEnd text)
      (h : operators[index]? = some (String.ofList text)) :
      Inside st ⟨.operator index, text⟩ { st.countBracket text with shown := true }

theorem content_inside {st : State} {c : Char} {s : List Char} {n : Next} (h : content st c s = .ok n)
    (htext : ¬IsLineEnd n.1.text) : Inside st n.1 n.2.1 := by
  unfold content at h
  split at h
  · split at h
    · obtain rfl := Except.ok.inj h
      exact .plain htext trivial
    · cases h
  · split at h
    · obtain rfl := Except.ok.inj h
      exact .plain htext trivial
    · split at h
      · obtain rfl := Except.ok.inj h
        exact .plain htext (isPlain_wordKind _)
      · split at h
        · next hop =>
          obtain rfl := Except.ok.inj h
          exact .operator htext (getElem?_operators_of_mem (List.mem_of_find?_eq_some hop))
        · cases h

/-- What is found inside a line is one of the segments that can be found there. -/
theorem next_inside {st : State} {c : Char} {rest : List Char} {n : Next} (h : next st c rest = .ok n) :
    Inside st n.1 n.2.1 := by
  have hbegins := next_begins h
  unfold next at h
  split at h
  · next hbreak =>
    obtain rfl := Except.ok.inj h
    unfold State.endLine
    split
    · next hend => exact .newline (isLineEnd_lineBreak hbreak rest) hend.1 hend.2
    · next hend => exact .lineEnd (isLineEnd_lineBreak hbreak rest) hend
  · next hbreak =>
    -- the segment begins with `c`, which is no line break
    have htext : ¬IsLineEnd n.1.text := fun hend => hbreak (hend.isLineBreak hbegins.1)
    split at h
    · obtain rfl := Except.ok.inj h
      exact .hidden htext (.inl rfl)
    · split at h
      · obtain rfl := Except.ok.inj h
        exact .hidden htext (.inl rfl)
      · split at h
        · obtain rfl := Except.ok.inj h
          exact .hidden htext (.inr rfl)
        · exact content_inside h htext

/-- A failure inside a line is not about the width of the line. -/
theorem ne_inconsistentDedent_of_next {st : State} {c : Char} {rest : List Char} {e : Failure}
    (h : next st c rest = .error e) : e ≠ .inconsistentDedent := by
  rintro rfl
  unfold next content at h
  grind

/-! ## Where lines begin -/

/-- Whether the last of some segments, if there is one, ends a line. -/
def EndsLine (segments : List (Segment Kind)) : Prop := ∀ s ∈ segments.getLast?, IsLineEnd s.text

/-- Whether no bracket is open and no token has been shown, if a line begins. -/
def State.Settled (st : State) : Prop := st.lineStart = true → st.brackets = 0 ∧ st.shown = false

theorem Inside.settled {st after : State} {s : Segment Kind} (h : Inside st s after) (hline : st.lineStart = false) :
    after.Settled := by
  cases h with
  | newline _ hbrackets => exact fun _ => ⟨hbrackets, rfl⟩
  | lineEnd _ hshown =>
    intro hafter
    have hbrackets : st.brackets = 0 := by simpa using hafter
    exact ⟨hbrackets, by simpa [hbrackets] using hshown⟩
  | hidden => simp [State.Settled, hline]
  | plain => simp [State.Settled, hline]
  | operator => simp [State.Settled, hline]

/-- A segment inside a line ends the line or leaves the lexer inside. -/
theorem Inside.lineStart_iff {st after : State} {s : Segment Kind} (h : Inside st s after) (hline : st.lineStart = false) :
    after.lineStart = true ↔ IsLineEnd s.text ∧ after.brackets = 0 := by
  cases h with
  | newline htext hbrackets => simp [htext, hbrackets]
  | lineEnd htext => simp [htext]
  | hidden htext => simp [htext, hline]
  | plain htext => simp [htext, hline]
  | operator htext => simp [htext, hline]

theorem Step.settled {st after : State} {s left : List Char} {found : List (Segment Kind)}
    (h : Step st s found after left) : after.Settled := by
  cases h with
  | line => exact nofun
  | inside hline h => exact (next_inside h).settled hline

/-! ## Runs -/

theorem Run.single {st after : State} {s left : List Char} {found : List (Segment Kind)} (h : Step st s found after left) :
    Run st s found after left := by
  simpa using Run.step h (.refl after left)

/-- A run is empty or has a last step. -/
theorem Run.eq_or_last {st last : State} {s left : List Char} {segments : List (Segment Kind)}
    (h : Run st s segments last left) :
    (segments = [] ∧ last = st ∧ left = s) ∨
      ∃ before mid t found, Run st s before mid t ∧ Step mid t found last left ∧ segments = before ++ found := by
  induction h with
  | refl st s => exact .inl ⟨rfl, rfl, rfl⟩
  | step hstep _ ih =>
    refine .inr ?_
    rcases ih with ⟨rfl, rfl, rfl⟩ | ⟨before, mid, t, found, hrun, hlast, rfl⟩
    · exact ⟨[], _, _, _, .refl _ _, hstep, by simp⟩
    · exact ⟨_, mid, t, found, .step hstep hrun, hlast, by simp⟩

theorem Run.settled {last : State} {s left : List Char} {segments : List (Segment Kind)}
    (h : Run .initial s segments last left) : last.Settled := by
  rcases h.eq_or_last with ⟨-, rfl, -⟩ | ⟨_, _, _, _, -, hstep, -⟩
  · exact fun _ => ⟨rfl, rfl⟩
  · exact hstep.settled

/-- A line begins at the beginning of the text, or after a segment that ends a line. -/
theorem Run.endsLine {last : State} {s left : List Char} {segments : List (Segment Kind)}
    (h : Run .initial s segments last left) (hline : last.lineStart = true) : EndsLine segments := by
  rcases h.eq_or_last with ⟨rfl, -⟩ | ⟨before, mid, t, found, -, hstep, rfl⟩
  · exact nofun
  · cases hstep with
    | line => cases hline
    | inside hmid h =>
      intro s hs
      rw [List.getLast?_append, List.getLast?_singleton, Option.some_or, Option.mem_some] at hs
      exact hs ▸ (((next_inside h).lineStart_iff hmid).mp hline).1

/-- Outside brackets a line begins wherever the segments so far end a line. -/
theorem Run.exists_lineStart {last : State} {s left : List Char} {segments : List (Segment Kind)}
    (h : Run .initial s segments last left) (hends : EndsLine segments) (hbrackets : last.brackets = 0) :
    ∃ st, Run .initial s segments st left ∧ st.lineStart = true := by
  rcases h.eq_or_last with ⟨rfl, rfl, rfl⟩ | ⟨before, mid, t, found, hrun, hstep, rfl⟩
  · exact ⟨_, h, rfl⟩
  · cases hstep with
    | inside hmid hnext =>
      refine ⟨last, h, ((next_inside hnext).lineStart_iff hmid).mpr ⟨?_, hbrackets⟩⟩
      exact hends _ (by simp)
    | @line c rest _ _ hmid hfound =>
      have hjoined := joined_indentation mid.levels (spanOf isBlank (c :: rest)).1 (spanOf isBlank (c :: rest)).2
      rw [hfound] at hjoined
      -- the white space of the line does not end a line, so there is none
      obtain rfl : found = [] := by
        rcases List.eq_nil_or_concat found with hnil | ⟨init, s, rfl⟩
        · exact hnil
        · obtain ⟨b, hb, hbreak⟩ := (hends s (by simp)).exists_isLineBreak
          have hspace : b ∈ (spanOf isBlank (c :: rest)).1 := by
            rw [← hjoined]
            simp [hb]
          rw [not_isLineBreak_of_isBlank (List.mem_takeWhile_imp hspace)] at hbreak
          cases hbreak
      have hleft := spanOf_append isBlank (c :: rest)
      rw [← hjoined, Segment.joined_nil, List.nil_append] at hleft
      exact ⟨mid, by rwa [List.append_nil, hleft], hmid⟩

theorem cutFrom_of_step {st after : State} {s left : List Char} {found : List (Segment Kind)}
    (h : Step st s found after left) (done : List (Segment Kind)) :
    cutFrom st done s = cutFrom after (found.reverse ++ done) left := by
  cases h with
  | line hline h =>
    rw [cutFrom, dif_pos hline]
    simp only [h]
    rfl
  | inside hline h =>
    rw [cutFrom, dif_neg (by simp [hline])]
    split
    · next hnext =>
      obtain ⟨rfl, rfl, rfl⟩ : _ = _ ∧ _ = _ ∧ _ = _ := by simpa using h.symm.trans hnext
      rfl
    · next hnext => cases h.symm.trans hnext

/-- A text is cut along any run from where it begins. -/
theorem cutFrom_of_run {st last : State} {s left : List Char} {segments : List (Segment Kind)}
    (h : Run st s segments last left) (done : List (Segment Kind)) :
    cutFrom st done s = cutFrom last (segments.reverse ++ done) left := by
  induction h generalizing done with
  | refl st s => rfl
  | step hstep _ ih => rw [cutFrom_of_step hstep, ih, List.reverse_append, List.append_assoc]

/-- A run to the end of a text is all of its cut. -/
theorem cut_of_run {s : List Char} {segments : List (Segment Kind)} {last : State} (h : Run .initial s segments last []) :
    cut s = ⟨segments ++ finish last, none⟩ := by
  rw [cut, cutFrom_of_run h, cutFrom]
  simp

/-- A text that a run takes to its end has the tokens of the run. -/
theorem tokens_of_run {source : String} {segments : List (Segment Kind)} {last : State}
    (h : Run .initial source.toList segments last []) :
    tokens source = .ok (Segment.emitted Kind.place [] (segments ++ finish last)) := by
  have hcut := cut_of_run h
  exact Cut.tokens_eq_ok_iff.mpr ⟨by rw [hcut], by rw [hcut]⟩

/-- A run to where it is stuck is all of the cut. -/
theorem cut_of_stuck {s left : List Char} {segments found : List (Segment Kind)} {last : State} {e : Failure}
    (h : Run .initial s segments last left) (hstuck : Stuck last left found e) :
    cut s = ⟨segments ++ found, some e⟩ := by
  rw [cut, cutFrom_of_run h]
  cases hstuck with
  | line hline h =>
    rw [cutFrom, dif_pos hline]
    simp only [h]
    simp
  | inside hline h =>
    rw [cutFrom, dif_neg (by simp [hline])]
    split
    · next hnext => cases h.symm.trans hnext
    · next hnext =>
      obtain rfl : _ = _ := by simpa using h.symm.trans hnext
      simp

end Lexeme.Python
