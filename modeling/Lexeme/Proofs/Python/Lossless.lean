import Lexeme.Proofs.Python.Run

/-!
# Nothing is lost

The tokens of a Python text, hidden ones included, make up the text again (`tokens_lossless`). Only two kinds of token
are empty: the end of a block, and the end of a last line that no line break ends. The second comes after all text, and
after it only blocks end.

The lexer finds no empty segment but ends of blocks (`Run.kind_of_empty`); the rest follows from the run and
from what `finish` puts at the end of the text.
-/

namespace Lexeme.Python

/-! ## Empty segments -/

theorem ne_nil_of_indentWidth_pos {space : List Char} (h : 0 < indentWidth space) : space ≠ [] := by
  rintro rfl
  exact absurd h (by decide)

/-- At the beginning of a line only the ends of blocks are empty. -/
theorem kind_of_empty_indentation {levels : List Nat} {space rest : List Char} {s : Segment Kind}
    (hs : s ∈ (indentation levels space rest).1) (hempty : s.text = []) : s.kind = .dedent := by
  have hblank (h : s ∈ blankSegments space) : s.kind = .dedent := by
    obtain ⟨rfl, hspace⟩ := eq_of_mem_blankSegments h
    exact absurd hempty hspace
  rcases indentation_cases levels space rest with ⟨-, h⟩ | ⟨-, hdeeper, h⟩ | ⟨-, -, h⟩
  · exact hblank (by rwa [h] at hs)
  · -- a deeper line begins with white space, which is the text of the segment
    rw [h] at hs
    obtain rfl := List.mem_singleton.mp hs
    exact absurd hempty (ne_nil_of_indentWidth_pos (Nat.zero_lt_of_lt hdeeper))
  · rw [h] at hs
    rcases List.mem_append.mp hs with hs | hs
    · exact hblank hs
    · rw [List.eq_of_mem_replicate hs]

/-- A run finds no empty segment but ends of blocks. -/
theorem Run.kind_of_empty {st last : State} {t left : List Char} {segments : List (Segment Kind)}
    (h : Run st t segments last left) : ∀ s ∈ segments, s.text = [] → s.kind = .dedent :=
  h.forall_mem kind_of_empty_indentation fun h hempty => absurd hempty (next_begins h).2

/-! ## The end of the text -/

/-- At the end of the text blocks end; before that there is at most the end of a line. -/
theorem kind_of_finish {st : State} {first last : List (Segment Kind)} {s : Segment Kind}
    (h : finish st = first ++ s :: last) :
    s.kind = .dedent ∨ first = [] ∧ s.kind = .newline ∧ ∀ u ∈ last, u.kind = .dedent := by
  have hdedent {u : Segment Kind} {n : Nat} (hu : u ∈ List.replicate n (⟨.dedent, []⟩ : Segment Kind)) :
      u.kind = .dedent := by rw [List.eq_of_mem_replicate hu]
  unfold finish at h
  split at h
  · rw [List.singleton_append] at h
    cases first with
    | nil =>
      obtain ⟨hs, hlast⟩ := List.cons.inj h
      exact .inr ⟨rfl, by rw [← hs], fun u hu => hdedent (by rw [hlast]; exact hu)⟩
    | cons v first =>
      obtain ⟨-, hrest⟩ := List.cons.inj h
      exact .inl (hdedent (by rw [hrest]; simp))
  · rw [List.nil_append] at h
    exact .inl (hdedent (by rw [h]; simp))

theorem joined_finish (st : State) : Segment.joined (finish st) = [] := by
  unfold finish
  rw [Segment.joined_append, joined_dedents, List.append_nil]
  split <;> rfl

/-- A segment of a whole text is found by the run or at the end of the text. -/
theorem exists_split_of_append {segments ending first rest : List (Segment Kind)} {s : Segment Kind}
    (h : segments ++ ending = first ++ s :: rest) :
    (∃ more, segments = first ++ s :: more) ∨ ∃ more, first = segments ++ more ∧ ending = more ++ s :: rest := by
  rcases List.append_eq_append_iff.mp h with ⟨more, hfirst, hending⟩ | ⟨more, hsegments, hrest⟩
  · exact .inr ⟨more, hfirst, hending⟩
  · cases more with
    | nil =>
      rw [List.append_nil] at hsegments
      exact .inr ⟨[], by rw [hsegments, List.append_nil], hrest.symm⟩
    | cons t more =>
      obtain ⟨rfl, -⟩ := List.cons.inj hrest
      exact .inl ⟨more, hsegments⟩

/-- An empty segment of a whole text ends a block, or it ends the last line: then all text stands before it, and only
ends of blocks come after it. -/
theorem kind_of_empty {t : List Char} {segments first rest : List (Segment Kind)} {s : Segment Kind} {last : State}
    (hrun : Run .initial t segments last []) (h : segments ++ finish last = first ++ s :: rest) (hempty : s.text = []) :
    s.kind = .dedent ∨ s.kind = .newline ∧ Segment.joined first = t ∧ ∀ u ∈ rest, u.kind = .dedent := by
  have htext : Segment.joined segments = t := by simpa using hrun.joined_append
  rcases exists_split_of_append h with ⟨more, rfl⟩ | ⟨more, rfl, hfinish⟩
  · exact .inl (hrun.kind_of_empty s (by simp) hempty)
  · rcases kind_of_finish hfinish with hs | ⟨rfl, hs, hrest⟩
    · exact .inl hs
    · exact .inr ⟨hs, by rw [List.append_nil, htext], hrest⟩

/-! ## Tokens -/

theorem symbol?_dedent : vocabulary.symbol? Kind.dedent.category = some "DEDENT" := by decide

theorem symbol?_newline : vocabulary.symbol? Kind.newline.category = some "NEWLINE" := by decide

/-- The tokens of a text that is accepted make up the text, and an empty token is a `DEDENT` or the one `NEWLINE` that
stands after all text, with nothing but `DEDENT`s after it. -/
theorem tokens_lossless {source : String} {ts : List Token} (h : tokens source = .ok ts) :
    String.join (ts.map Token.text) = source ∧
      ∀ before t after, ts = before ++ t :: after → t.text = "" →
        vocabulary.symbol? t.category = some "DEDENT" ∨
          vocabulary.symbol? t.category = some "NEWLINE" ∧ String.join (before.map Token.text) = source ∧
            ∀ u ∈ after, vocabulary.symbol? u.category = some "DEDENT" := by
  obtain ⟨segments, last, hrun, rfl⟩ := exists_run_of_tokens h
  have hplace (kind : Kind) : (Kind.place kind).isSome := rfl
  have hjoined : Segment.joined segments = source.toList := by simpa using hrun.joined_append
  refine ⟨?_, ?_⟩
  · rw [Segment.join_emitted hplace, Segment.joined_append, joined_finish, List.append_nil, hjoined,
      String.ofList_toList]
  · intro before t after hts hempty
    obtain ⟨first, s, rest, hsegments, ht, hbefore, hafter⟩ := Segment.exists_segment_of_emitted hts
    have htext : s.text = [] := by
      rw [(Segment.token?_eq_some_iff.mp ht).1] at hempty
      simpa using hempty
    rw [category_of_token? ht]
    rcases kind_of_empty hrun hsegments htext with hs | ⟨hs, hfirst, hrest⟩
    · exact .inl (by rw [hs, symbol?_dedent])
    · refine .inr ⟨by rw [hs, symbol?_newline], ?_, ?_⟩
      · rw [← hbefore, Segment.join_emitted hplace, hfirst, String.ofList_toList]
      · -- each token after it comes from a segment after `s`
        intro u hu
        obtain ⟨us, vs, rfl⟩ := List.append_of_mem hu
        obtain ⟨_, v, _, hv, htoken, -⟩ := Segment.exists_segment_of_emitted hafter
        rw [category_of_token? htoken, hrest v (by rw [hv]; simp), symbol?_dedent]

/-- In a block that the text leaves open, the last line has no line break, and both ends are marked by empty tokens. -/
theorem tokens_lossless_open_block :
    ∃ ts, tokens "if é\n\ty" = .ok ts ∧ ts.map Token.text = ["if", " ", "é", "\n", "\t", "y", "", ""] ∧
      String.join (ts.map Token.text) = "if é\n\ty" := by
  have htexts : (tokens "if é\n\ty").toOption.map (·.map Token.text) =
      some ["if", " ", "é", "\n", "\t", "y", "", ""] := by decide +kernel
  cases h : tokens "if é\n\ty" with
  | error e => rw [h] at htexts; cases htexts
  | ok ts =>
    rw [h] at htexts
    exact ⟨ts, rfl, Option.some.inj htexts, (tokens_lossless h).1⟩

end Lexeme.Python
