import Lexeme.Proofs.Python.Lossless
import Lexeme.Proofs.Python.SilentLines

/-!
# Logical lines

The tokens that are seen form lines: each line ends with one `NEWLINE`, and `INDENT`s and `DEDENT`s stand only between
lines (`Follows`). Inside brackets no line begins or ends (`Observed.level`), but for the end of the text.

All of this follows from one invariant of runs. What the lexer remembers of the line it is on and of the open brackets is
what the segments before tell: whether the last segment that is seen belongs to a line that has not ended, and the number
of brackets that have been opened and not closed (`Observed`).
-/

namespace Lexeme.Python

/-! ## Every member of a list with those before it -/

/-- Whether every member of a list stands in a relation to those before it. -/
def Everywhere {α : Type} (p : List α → α → Prop) (l : List α) : Prop :=
  ∀ before x after, l = before ++ x :: after → p before x

section

variable {α : Type} {p : List α → α → Prop}

theorem everywhere_nil : Everywhere p [] := by simp [Everywhere]

theorem everywhere_concat {l : List α} {x : α} : Everywhere p (l ++ [x]) ↔ Everywhere p l ∧ p l x := by
  constructor
  · intro h
    refine ⟨?_, h l x [] rfl⟩
    rintro before y after rfl
    exact h before y (after ++ [x]) (by simp)
  · rintro ⟨hl, hx⟩ before y after h
    rcases List.eq_nil_or_concat after with rfl | ⟨after, z, rfl⟩
    · obtain ⟨rfl, hlast⟩ := List.append_inj' h rfl
      obtain rfl : x = y := by simpa using hlast
      exact hx
    · rw [List.concat_eq_append, ← List.cons_append, ← List.append_assoc] at h
      exact hl before y after (List.append_inj' h rfl).1

end

/-! ## What may follow what -/

/-- The kinds after which a line may begin. -/
def Kind.IsBoundary (kind : Kind) : Prop := kind = .newline ∨ kind = .dedent

/-- What may be seen after the kind that was seen last. A `NEWLINE` ends a line that has shown something; `INDENT` and
`DEDENT` stand where no line has been begun, and a `DEDENT` not at the beginning of the text. -/
def Follows (last : Option Kind) : Kind → Prop
  | .newline => ∃ kind ∈ last, ¬kind.IsBoundary
  | .indent => ∀ kind ∈ last, kind.IsBoundary
  | .dedent => ∃ kind ∈ last, kind.IsBoundary
  | _ => True

/-- Kinds of which each may follow the one before it. -/
def Shaped (kinds : List Kind) : Prop := Everywhere (fun before kind => Follows before.getLast? kind) kinds

/-- Kinds that end with a boundary can be followed by `DEDENT`s, and then end with a boundary again. -/
theorem Shaped.dedents {kinds : List Kind} (h : Shaped kinds) (hlast : ∃ kind ∈ kinds.getLast?, kind.IsBoundary) (n : Nat) :
    Shaped (kinds ++ List.replicate n .dedent) ∧
      ∃ kind ∈ (kinds ++ List.replicate n Kind.dedent).getLast?, kind.IsBoundary := by
  induction n with
  | zero =>
    rw [List.replicate_zero, List.append_nil]
    exact ⟨h, hlast⟩
  | succ n ih =>
    rw [List.replicate_succ', ← List.append_assoc]
    exact ⟨everywhere_concat.mpr ih, .dedent, by simp, .inr rfl⟩

/-- After the last kind that is no boundary there is one `NEWLINE`, and then nothing but `DEDENT`s. -/
theorem Shaped.eq_newline_cons {before after : List Kind} {kind : Kind} (h : Shaped (before ++ kind :: after))
    (hlast : ∀ last ∈ (before ++ kind :: after).getLast?, last.IsBoundary) (hkind : ¬kind.IsBoundary)
    (hafter : ∀ k ∈ after, k.IsBoundary) : ∃ dedents, after = .newline :: dedents ∧ ∀ k ∈ dedents, k = .dedent := by
  cases after with
  | nil => exact absurd (hlast kind (by simp)) hkind
  | cons first rest =>
    have hfirst : Follows (some kind) first := by
      simpa using h (before ++ [kind]) first rest (by simp)
    obtain rfl : first = .newline := by
      rcases hafter first List.mem_cons_self with rfl | rfl
      · rfl
      · obtain ⟨k, hk, hboundary⟩ := hfirst
        exact absurd (Option.some.inj hk ▸ hboundary) hkind
    refine ⟨rest, rfl, fun k hk => ?_⟩
    rcases hafter k (List.mem_cons_of_mem _ hk) with rfl | rfl
    · -- a second `NEWLINE` would follow a boundary
      obtain ⟨middle, last, rfl⟩ := List.append_of_mem hk
      obtain ⟨k, hk, hnot⟩ : Follows _ .newline := h (before ++ kind :: .newline :: middle) .newline last (by simp)
      have hmem : k ∈ (Kind.newline :: middle).getLast? := by simpa [List.getLast?_append, List.getLast?_cons_cons] using hk
      have hk := List.mem_of_getLast? hmem
      exact absurd (hafter k (by rcases List.mem_cons.mp hk with rfl | hk <;> simp [*])) hnot
    · rfl

/-! ## Brackets -/

/-- Whether a kind opens a bracket. -/
def Kind.opens : Kind → Bool
  | operator index => operators[index]?.any fun o => o.toList ∈ [['('], ['['], ['\x7b']]
  | _ => false

/-- Whether a kind closes a bracket. -/
def Kind.closes : Kind → Bool
  | operator index => operators[index]?.any fun o => o.toList ∈ [[')'], [']'], ['\x7d']]
  | _ => false

/-- The number of open brackets after one more thing that may open or close a bracket. -/
def bracketsAfter (depth : Nat) (opens closes : Bool) : Nat :=
  if opens then depth + 1 else if closes then depth - 1 else depth

/-- The number of brackets that have been opened and not closed. -/
def openBrackets (kinds : List Kind) : Nat := kinds.foldl (fun depth kind => bracketsAfter depth kind.opens kind.closes) 0

theorem openBrackets_concat (kinds : List Kind) (kind : Kind) :
    openBrackets (kinds ++ [kind]) = bracketsAfter (openBrackets kinds) kind.opens kind.closes := by
  simp [openBrackets]

theorem brackets_countBracket (st : State) {index : Nat} {text : List Char}
    (h : operators[index]? = some (String.ofList text)) :
    (st.countBracket text).brackets =
      bracketsAfter st.brackets (Kind.operator index).opens (Kind.operator index).closes := by
  unfold State.countBracket bracketsAfter
  simp only [Kind.opens, Kind.closes, h, Option.any_some, String.toList_ofList, List.mem_cons, List.not_mem_nil, or_false,
    decide_eq_true_eq]
  split_ifs <;> rfl

/-! ## What the segments tell of the state -/

theorem visibleKinds_append (segments more : List (Segment Kind)) :
    visibleKinds (segments ++ more) = visibleKinds segments ++ visibleKinds more := by
  simp [visibleKinds]

/-- The kinds of some segments. -/
def kindsOf (segments : List (Segment Kind)) : List Kind := segments.map Segment.kind

/-- A state of the lexer after some segments of a text. -/
structure Observed (segments : List (Segment Kind)) (st : State) : Prop where
  shaped : Shaped (visibleKinds segments)
  /-- A line has shown something, and not ended, when the last kind that was seen is none after which a line begins. -/
  shown_iff : st.shown = true ↔ ∃ kind ∈ (visibleKinds segments).getLast?, ¬kind.IsBoundary
  /-- Blocks are opened by what is seen. -/
  ne_nil : st.levels ≠ [] → visibleKinds segments ≠ []
  brackets_eq : st.brackets = openBrackets (kindsOf segments)
  /-- Inside brackets no line begins or ends. -/
  level : Everywhere (fun before s => s.kind.IsBoundary ∨ s.kind = .indent → openBrackets (kindsOf before) = 0) segments

theorem observed_initial : Observed [] .initial where
  shaped := everywhere_nil
  shown_iff := by simp [State.initial, visibleKinds]
  ne_nil h := absurd rfl h
  brackets_eq := rfl
  level := everywhere_nil

namespace Observed

variable {segments : List (Segment Kind)} {st after : State} {s : Segment Kind}

/-- A segment that is not seen changes nothing that can be observed. -/
theorem hide (h : Observed segments st) (hs : s.kind.IsHidden) (hlevels : after.levels = st.levels)
    (hbrackets : after.brackets = st.brackets) (hshown : after.shown = st.shown) : Observed (segments ++ [s]) after := by
  have hvisible : visibleKinds (segments ++ [s]) = visibleKinds segments := by
    rw [visibleKinds_append]
    simp [visibleKinds, hs.channel_eq, hiddenChannel, defaultChannel]
  have hopen : openBrackets (kindsOf (segments ++ [s])) = openBrackets (kindsOf segments) := by
    rw [kindsOf, List.map_append, List.map_singleton, openBrackets_concat]
    rcases hs with hs | hs <;> rw [hs] <;> rfl
  refine ⟨by rw [hvisible]; exact h.shaped, by rw [hvisible, hshown]; exact h.shown_iff, ?_, ?_, ?_⟩
  · rw [hvisible, hlevels]
    exact h.ne_nil
  · rw [hopen, hbrackets]
    exact h.brackets_eq
  · refine everywhere_concat.mpr ⟨h.level, ?_⟩
    rcases hs with hs | hs <;> simp [hs, Kind.IsBoundary]

/-- A segment that is seen, and may follow what was seen last. -/
theorem reveal (h : Observed segments st) (hs : s.kind.channel = defaultChannel)
    (hfollows : Follows (visibleKinds segments).getLast? s.kind) (hshown : after.shown = true ↔ ¬s.kind.IsBoundary)
    (hbrackets : after.brackets = bracketsAfter st.brackets s.kind.opens s.kind.closes)
    (hlevel : s.kind.IsBoundary ∨ s.kind = .indent → st.brackets = 0) : Observed (segments ++ [s]) after := by
  have hvisible : visibleKinds (segments ++ [s]) = visibleKinds segments ++ [s.kind] := by
    rw [visibleKinds_append]
    simp [visibleKinds, hs]
  refine ⟨?_, ?_, ?_, ?_, ?_⟩
  · rw [hvisible]
    exact everywhere_concat.mpr ⟨h.shaped, hfollows⟩
  · rw [hvisible]
    simpa using hshown
  · simp [hvisible]
  · rw [kindsOf, List.map_append, List.map_singleton, openBrackets_concat, hbrackets, h.brackets_eq]
    rfl
  · refine everywhere_concat.mpr ⟨h.level, ?_⟩
    rw [← h.brackets_eq]
    exact hlevel

/-- When the line has shown nothing, what was seen last is a kind after which a line begins. -/
theorem forall_isBoundary (h : Observed segments st) (hshown : st.shown = false) :
    ∀ kind ∈ (visibleKinds segments).getLast?, kind.IsBoundary := by
  intro kind hkind
  by_contra hnot
  rw [h.shown_iff.mpr ⟨kind, hkind, hnot⟩] at hshown
  cases hshown

theorem exists_isBoundary (h : Observed segments st) (hshown : st.shown = false) (hne : visibleKinds segments ≠ []) :
    ∃ kind ∈ (visibleKinds segments).getLast?, kind.IsBoundary :=
  ⟨_, List.getLast?_eq_some_getLast hne, h.forall_isBoundary hshown _ (List.getLast?_eq_some_getLast hne)⟩

/-- Outside brackets blocks end where something has been seen and the line has shown nothing. -/
theorem dedents (h : Observed segments st) (hshown : st.shown = false) (hne : visibleKinds segments ≠ [])
    (hzero : st.brackets = 0) (hbrackets : after.brackets = 0) (hafter : after.shown = false) (n : Nat) :
    Observed (segments ++ List.replicate n ⟨.dedent, []⟩) after := by
  induction n with
  | zero =>
    rw [List.replicate_zero, List.append_nil]
    exact ⟨h.shaped, by rw [hafter, ← hshown]; exact h.shown_iff, fun _ => hne, by rw [hbrackets, ← hzero, h.brackets_eq],
      h.level⟩
  | succ n ih =>
    rw [List.replicate_succ', ← List.append_assoc]
    have hne' : visibleKinds (segments ++ List.replicate n ⟨.dedent, []⟩) ≠ [] := by
      rw [visibleKinds_append]
      exact List.append_ne_nil_of_left_ne_nil hne _
    exact ih.reveal rfl (ih.exists_isBoundary hafter hne') (by simp [hafter, Kind.IsBoundary]) rfl fun _ => hbrackets

/-! ## Steps -/

/-- A segment inside a line. -/
theorem inside (h : Observed segments st) (hinside : Inside st s after) : Observed (segments ++ [s]) after := by
  cases hinside with
  | newline _ hbrackets hshown =>
    exact h.reveal rfl (h.shown_iff.mp hshown) (by simp [Kind.IsBoundary]) rfl fun _ => hbrackets
  | lineEnd => exact h.hide (.inl rfl) rfl rfl rfl
  | hidden _ hkind => exact h.hide hkind rfl rfl rfl
  | @plain kind text _ hkind =>
    have hfollows : kind.channel = defaultChannel ∧ Follows (visibleKinds segments).getLast? kind ∧ ¬kind.IsBoundary ∧
        kind.opens = false ∧ kind.closes = false ∧ kind ≠ .indent := by
      cases kind <;> first | exact hkind.elim | simp [Kind.channel, Follows, Kind.IsBoundary, Kind.opens, Kind.closes]
    obtain ⟨hchannel, hfollows, hboundary, hopens, hcloses, hindent⟩ := hfollows
    refine h.reveal hchannel hfollows (by simp [hboundary]) ?_ ?_
    · simp [bracketsAfter, hopens, hcloses]
    · rintro (hkind | hkind)
      · exact absurd hkind hboundary
      · exact absurd hkind hindent
  | operator _ hoperator =>
    exact h.reveal rfl trivial (by simp [Kind.IsBoundary]) (brackets_countBracket st hoperator) (by simp [Kind.IsBoundary])

theorem blankSegments (h : Observed segments st) (space : List Char) (hlevels : after.levels = st.levels)
    (hbrackets : after.brackets = st.brackets) (hshown : after.shown = st.shown) :
    Observed (segments ++ Python.blankSegments space) after := by
  unfold Python.blankSegments
  split
  · rw [List.append_nil]
    exact ⟨h.shaped, by rw [hshown]; exact h.shown_iff, by rw [hlevels]; exact h.ne_nil, by rw [hbrackets]; exact h.brackets_eq,
      h.level⟩
  · exact h.hide (.inl rfl) hlevels hbrackets hshown

/-- The segments at the beginning of a line. -/
theorem indentation (h : Observed segments st) (hzero : st.brackets = 0) (hshown : st.shown = false) {space rest : List Char}
    {found : List (Segment Kind)} {levels : List Nat} {consistent : Bool}
    (hfound : Python.indentation st.levels space rest = (found, levels, consistent)) :
    Observed (segments ++ found) (st.enterLine levels) := by
  rcases indentation_cases st.levels space rest with ⟨-, h'⟩ | ⟨-, -, h'⟩ | ⟨-, hlt, h'⟩
  · obtain ⟨rfl, rfl, -⟩ : _ = _ ∧ _ = _ ∧ _ = _ := by simpa only [Prod.mk.injEq] using h'.symm.trans hfound
    exact h.blankSegments space rfl rfl (by simp [State.enterLine])
  · obtain ⟨rfl, rfl, -⟩ : _ = _ ∧ _ = _ ∧ _ = _ := by simpa only [Prod.mk.injEq] using h'.symm.trans hfound
    exact h.reveal rfl (h.forall_isBoundary hshown) (by simp [State.enterLine, Kind.IsBoundary]) rfl fun _ => hzero
  · obtain ⟨rfl, rfl, -⟩ : _ = _ ∧ _ = _ ∧ _ = _ := by simpa only [Prod.mk.injEq] using h'.symm.trans hfound
    -- some block is open, so something has been seen
    have hne : st.levels ≠ [] := by
      intro hnil
      rw [hnil] at hlt
      exact absurd hlt (Nat.not_lt_zero _)
    have hblank : Observed _ st := h.blankSegments space rfl rfl rfl
    rw [← List.append_assoc]
    have hle := (List.dropWhile_suffix (l := st.levels) (indentWidth space < ·)).length_le
    have hquiet : (st.enterLine (st.levels.dropWhile (indentWidth space < ·))).shown = false := by
      simp [State.enterLine, hshown, Nat.not_lt.mpr hle]
    refine hblank.dedents hshown (hblank.ne_nil hne) hzero ?_ hquiet _
    exact hzero

theorem step (h : Observed segments st) (hsettled : st.Settled) {t left : List Char} {found : List (Segment Kind)}
    (hstep : Step st t found after left) : Observed (segments ++ found) after := by
  cases hstep with
  | line hline hfound => exact h.indentation (hsettled hline).1 (hsettled hline).2 hfound
  | inside _ hnext => exact h.inside (next_inside hnext)

theorem run (h : Observed segments st) (hsettled : st.Settled) {last : State} {t left : List Char}
    {more : List (Segment Kind)} (hrun : Run st t more last left) : Observed (segments ++ more) last := by
  induction hrun generalizing segments with
  | refl st t => rwa [List.append_nil]
  | step hstep _ ih =>
    rw [← List.append_assoc]
    exact ih (h.step hsettled hstep) hstep.settled

/-- At the end of the text the last line ends, if it has shown something, and then all blocks. -/
theorem shaped_finish (h : Observed segments st) :
    Shaped (visibleKinds (segments ++ finish st)) ∧
      ∀ kind ∈ (visibleKinds (segments ++ finish st)).getLast?, kind.IsBoundary := by
  have hboundary {kinds : List Kind} (hlast : ∃ kind ∈ kinds.getLast?, kind.IsBoundary) :
      ∀ kind ∈ kinds.getLast?, kind.IsBoundary := by
    obtain ⟨kind, hkind, hboundary⟩ := hlast
    intro other hother
    rwa [Option.mem_unique hother hkind]
  have hdedents (n : Nat) : visibleKinds (List.replicate n ⟨.dedent, []⟩) = List.replicate n .dedent := by
    simp [visibleKinds, Kind.channel]
  rw [visibleKinds_append, finish, visibleKinds_append, hdedents, ← List.append_assoc]
  cases hshown : st.shown with
  | true =>
    have hnewline : Shaped (visibleKinds segments ++ [.newline]) :=
      everywhere_concat.mpr ⟨h.shaped, h.shown_iff.mp hshown⟩
    obtain ⟨hshaped, hlast⟩ := hnewline.dedents ⟨.newline, by simp, .inl rfl⟩ st.levels.length
    exact ⟨hshaped, hboundary hlast⟩
  | false =>
    have hnone : visibleKinds (if false = true then [⟨.newline, []⟩] else []) = [] := rfl
    rw [hnone, List.append_nil]
    by_cases hne : st.levels = []
    · rw [hne, List.length_nil, List.replicate_zero, List.append_nil]
      exact ⟨h.shaped, h.forall_isBoundary hshown⟩
    · obtain ⟨hshaped, hlast⟩ := h.shaped.dedents (h.exists_isBoundary hshown (h.ne_nil hne)) st.levels.length
      exact ⟨hshaped, hboundary hlast⟩

end Observed

/-! ## Tokens -/

/-- Whether a token opens a bracket. -/
def opensBracket (t : Token) : Bool := vocabulary.literalName? t.category ∈ [some "'('", some "'['", some "'\x7b'"]

/-- Whether a token closes a bracket. -/
def closesBracket (t : Token) : Bool := vocabulary.literalName? t.category ∈ [some "')'", some "']'", some "'\x7d'"]

/-- The number of brackets that some tokens have opened and not closed. A closing bracket without an opening one counts
for nothing. -/
def bracketDepth (ts : List Token) : Nat :=
  ts.foldl (fun depth t => bracketsAfter depth (opensBracket t) (closesBracket t)) 0

/-- The category of a kind tells whether it opens or closes a bracket. -/
theorem brackets_category {kind : Kind} (h : kind.Proper) :
    decide (vocabulary.literalName? kind.category ∈ [some "'('", some "'['", some "'\x7b'"]) = kind.opens ∧
      decide (vocabulary.literalName? kind.category ∈ [some "')'", some "']'", some "'\x7d'"]) = kind.closes := by
  have hkeyword : ∀ index < keywords.length,
      decide (vocabulary.literalName? (Kind.keyword index).category ∈ [some "'('", some "'['", some "'\x7b'"]) = false ∧
      decide (vocabulary.literalName? (Kind.keyword index).category ∈ [some "')'", some "']'", some "'\x7d'"]) = false := by
    decide +kernel
  have hoperator : ∀ index < operators.length,
      decide (vocabulary.literalName? (Kind.operator index).category ∈ [some "'('", some "'['", some "'\x7b'"]) =
        (Kind.operator index).opens ∧
      decide (vocabulary.literalName? (Kind.operator index).category ∈ [some "')'", some "']'", some "'\x7d'"]) =
        (Kind.operator index).closes := by
    decide +kernel
  cases kind with
  | keyword index => exact hkeyword index h
  | operator index => exact hoperator index h
  | _ => decide

theorem bracketDepth_emitted {segments : List (Segment Kind)} (h : ∀ s ∈ segments, s.kind.Proper) (before : List Char) :
    bracketDepth (Segment.emitted Kind.place before segments) = openBrackets (kindsOf segments) := by
  unfold bracketDepth openBrackets
  generalize 0 = depth
  induction segments generalizing before depth with
  | nil => rfl
  | cons s rest ih =>
    obtain ⟨hs, hrest⟩ := List.forall_mem_cons.mp h
    obtain ⟨hopens, hcloses⟩ := brackets_category hs
    rw [Segment.emitted, List.foldl_append, ih hrest]
    simp only [kindsOf, List.map_cons, List.foldl_cons, ← hopens, ← hcloses]
    rfl

/-- What may follow what, told of symbols. -/
theorem Shaped.exists_of_symbols {kinds : List Kind} (h : Shaped kinds) {before after : List (Option String)}
    {symbol : Option String} (hsplit : kinds.map Kind.symbol? = before ++ symbol :: after) :
    ∃ first kind rest, kinds = first ++ kind :: rest ∧ first.map Kind.symbol? = before ∧ kind.symbol? = symbol ∧
      rest.map Kind.symbol? = after ∧ Follows first.getLast? kind := by
  obtain ⟨first, rest, rfl, hfirst, hrest⟩ := List.map_eq_append_iff.mp hsplit
  obtain ⟨kind, rest, rfl, hkind, hafter⟩ := List.map_eq_cons_iff.mp hrest
  exact ⟨first, kind, rest, rfl, hfirst, hkind, hafter, h first kind rest rfl⟩

theorem isBoundary_iff {kind : Kind} :
    kind.IsBoundary ↔ kind.symbol? = some "NEWLINE" ∨ kind.symbol? = some "DEDENT" :=
  (or_congr (Kind.symbol?_eq_iff .newline rfl) (Kind.symbol?_eq_iff .dedent rfl)).symm

/-- A text in which no line has a token is accepted, and shows nothing. -/
theorem exists_tokens_of_isSilent {source : String} (h : IsSilent source.toList) :
    ∃ ts, tokens source = .ok ts ∧ ts.filter Token.isVisible = [] := by
  obtain ⟨found, last, hrun, hhidden, hlevels, hshown⟩ := @run_silent .initial (fun _ => ⟨rfl, rfl⟩) rfl _ h
  have hfinish : finish last = [] := by
    rw [finish, hlevels, hshown]
    rfl
  refine ⟨_, tokens_of_run hrun, ?_⟩
  have hseen := seen_emitted [] found
  rw [hhidden.visible_eq_nil] at hseen
  rw [hfinish, List.append_nil]
  exact List.map_eq_nil_iff.mp hseen

/-- The shape of the visible tokens of a text. -/
structure LogicalLines (source : String) (ts : List Token) : Prop where
  /-- A `NEWLINE` ends a line that has shown something. -/
  newline : ∀ before after, visibleSymbols ts = before ++ some "NEWLINE" :: after →
    ∃ last, before.getLast? = some last ∧ last ≠ some "NEWLINE" ∧ last ≠ some "DEDENT"
  /-- An `INDENT` comes first, or where a line has ended. -/
  indent : ∀ before after, visibleSymbols ts = before ++ some "INDENT" :: after →
    before = [] ∨ before.getLast? = some (some "NEWLINE") ∨ before.getLast? = some (some "DEDENT")
  /-- A `DEDENT` comes where a line has ended. -/
  dedent : ∀ before after, visibleSymbols ts = before ++ some "DEDENT" :: after →
    before.getLast? = some (some "NEWLINE") ∨ before.getLast? = some (some "DEDENT")
  /-- After the last token that is neither, there is one `NEWLINE`, and then nothing but `DEDENT`s. -/
  last : ∀ before symbol after, visibleSymbols ts = before ++ symbol :: after →
    symbol ≠ some "NEWLINE" → symbol ≠ some "DEDENT" → (∀ other ∈ after, other = some "NEWLINE" ∨ other = some "DEDENT") →
    ∃ dedents, after = some "NEWLINE" :: dedents ∧ ∀ other ∈ dedents, other = some "DEDENT"
  /-- Inside brackets there is none of these tokens, but for the empty `NEWLINE` and the `DEDENT`s after all text. -/
  brackets : ∀ before t after, ts = before ++ t :: after → 0 < bracketDepth before →
    symbolOf t = some "NEWLINE" ∨ symbolOf t = some "INDENT" ∨ symbolOf t = some "DEDENT" →
    symbolOf t ≠ some "INDENT" ∧ t.text = "" ∧ String.join (before.map Token.text) = source
  /-- A text in which no line has a token shows nothing. -/
  silent : IsSilent source.toList → ts.filter Token.isVisible = []

/-- Inside brackets lines begin and end only after all text. -/
theorem exhausted_of_brackets {source : String} {segments first rest : List (Segment Kind)} {last : State} {s : Segment Kind}
    (hrun : Run .initial source.toList segments last []) (hsplit : segments ++ finish last = first ++ s :: rest)
    (hdepth : 0 < openBrackets (kindsOf first)) (hkind : s.kind.IsBoundary ∨ s.kind = .indent) :
    s.kind ≠ .indent ∧ s.text = [] ∧ Segment.joined first = source.toList := by
  have hobserved : Observed segments last := observed_initial.run (fun _ => ⟨rfl, rfl⟩) hrun
  have htext : Segment.joined segments = source.toList := by simpa using hrun.joined_append
  rcases exists_split_of_append hsplit with ⟨more, hsegments⟩ | ⟨more, rfl, hfinish⟩
  · exact absurd (hobserved.level first s more hsegments hkind) (Nat.ne_of_gt hdepth)
  · have hempty : Segment.joined (more ++ s :: rest) = [] := hfinish ▸ joined_finish last
    simp only [Segment.joined_append, Segment.joined_cons, List.append_eq_nil_iff] at hempty
    have hindent : s.kind ≠ .indent := by
      rcases kind_of_finish hfinish with hs | ⟨-, hs, -⟩ <;> simp [hs]
    exact ⟨hindent, hempty.2.1, by rw [Segment.joined_append, htext, hempty.1, List.append_nil]⟩

/-- The visible tokens of an accepted text form lines. -/
theorem logicalLines {source : String} {ts : List Token} (h : tokens source = .ok ts) : LogicalLines source ts := by
  obtain ⟨segments, last, hrun, hts⟩ := exists_run_of_tokens h
  have hobserved : Observed segments last := observed_initial.run (fun _ => ⟨rfl, rfl⟩) hrun
  have hproper := proper_of_run hrun
  obtain ⟨hshaped, hlast⟩ := hobserved.shaped_finish
  have hsymbols : (visibleKinds (segments ++ finish last)).map Kind.symbol? = visibleSymbols ts := by
    rw [hts, visibleSymbols_emitted hproper]
  have hsymbol {kinds : List Kind} {kind : Kind} (hkind : kind ∈ kinds.getLast?) :
      (kinds.map Kind.symbol?).getLast? = some kind.symbol? := by
    rw [List.getLast?_map, hkind]
    rfl
  constructor
  case newline =>
    intro before after hsplit
    obtain ⟨first, kind, rest, -, rfl, hkind, -, hfollows⟩ := hshaped.exists_of_symbols (hsymbols.trans hsplit)
    obtain rfl := (Kind.symbol?_eq_iff .newline rfl).mp hkind
    obtain ⟨kind, hkind, hnot⟩ := hfollows
    rw [isBoundary_iff, not_or] at hnot
    exact ⟨kind.symbol?, hsymbol hkind, hnot⟩
  case indent =>
    intro before after hsplit
    obtain ⟨first, kind, rest, -, rfl, hkind, -, hfollows⟩ := hshaped.exists_of_symbols (hsymbols.trans hsplit)
    obtain rfl := (Kind.symbol?_eq_iff .indent rfl).mp hkind
    cases hlast : first.getLast? with
    | none => exact .inl (by rw [List.getLast?_eq_none_iff.mp hlast, List.map_nil])
    | some kind =>
      rw [hsymbol hlast, Option.some.injEq, Option.some.injEq]
      exact .inr (isBoundary_iff.mp (hfollows kind hlast))
  case dedent =>
    intro before after hsplit
    obtain ⟨first, kind, rest, -, rfl, hkind, -, hfollows⟩ := hshaped.exists_of_symbols (hsymbols.trans hsplit)
    obtain rfl := (Kind.symbol?_eq_iff .dedent rfl).mp hkind
    obtain ⟨kind, hkind, hboundary⟩ := hfollows
    rw [hsymbol hkind, Option.some.injEq, Option.some.injEq]
    exact isBoundary_iff.mp hboundary
  case last =>
    intro before symbol after hsplit hnewline hdedent hafter
    obtain ⟨first, kind, rest, hkinds, rfl, rfl, rfl, -⟩ := hshaped.exists_of_symbols (hsymbols.trans hsplit)
    rw [hkinds] at hshaped hlast
    have hnot : ¬kind.IsBoundary := by
      rw [isBoundary_iff, not_or]
      exact ⟨hnewline, hdedent⟩
    obtain ⟨dedents, rfl, hdedents⟩ := hshaped.eq_newline_cons hlast hnot fun k hk =>
      isBoundary_iff.mpr (hafter _ (List.mem_map_of_mem hk))
    refine ⟨dedents.map Kind.symbol?, rfl, fun other hother => ?_⟩
    obtain ⟨k, hk, rfl⟩ := List.mem_map.mp hother
    rw [hdedents k hk]
    rfl
  case brackets =>
    intro before t after hsplit hdepth hsymbol
    obtain ⟨first, s, rest, hsegments, htoken, hbefore, -⟩ := Segment.exists_segment_of_emitted (hts.symm.trans hsplit)
    rw [hsegments] at hproper
    rw [symbolOf_of_token? (hproper s (by simp)) htoken] at hsymbol ⊢
    rw [← hbefore, bracketDepth_emitted fun u hu => hproper u (by simp [hu])] at hdepth
    have hkind : s.kind.IsBoundary ∨ s.kind = .indent := by
      rw [isBoundary_iff, ← @Kind.symbol?_eq_iff s.kind .indent rfl]
      rcases hsymbol with hsymbol | hsymbol | hsymbol
      · exact .inl (.inl hsymbol)
      · exact .inr hsymbol
      · exact .inl (.inr hsymbol)
    obtain ⟨hindent, htext, hjoined⟩ := exhausted_of_brackets hrun hsegments hdepth hkind
    refine ⟨?_, ?_, ?_⟩
    · exact fun hsymbol => hindent ((Kind.symbol?_eq_iff .indent rfl).mp hsymbol)
    · rw [(Segment.token?_eq_some_iff.mp htoken).1, htext]
    · rw [← hbefore, Segment.join_emitted fun _ => rfl, hjoined, String.ofList_toList]
  case silent =>
    intro hsilent
    obtain ⟨us, hus, hvisible⟩ := exists_tokens_of_isSilent hsilent
    rw [h] at hus
    cases hus
    exact hvisible

/-- Two blocks that end after a comment, and a last line without a line break. -/
theorem logicalLines_nested_blocks :
    ∃ ts, tokens "if x\n\tif y\n\t  z\n# c\n\nw" = .ok ts ∧ LogicalLines "if x\n\tif y\n\t  z\n# c\n\nw" ts ∧
      visibleSymbols ts = [none, some "NAME", some "NEWLINE", some "INDENT", none, some "NAME", some "NEWLINE",
        some "INDENT", some "NAME", some "NEWLINE", some "DEDENT", some "DEDENT", some "NAME", some "NEWLINE"] := by
  have hsymbols : (tokens "if x\n\tif y\n\t  z\n# c\n\nw").toOption.map visibleSymbols =
      some [none, some "NAME", some "NEWLINE", some "INDENT", none, some "NAME", some "NEWLINE",
        some "INDENT", some "NAME", some "NEWLINE", some "DEDENT", some "DEDENT", some "NAME", some "NEWLINE"] := by
    decide +kernel
  cases h : tokens "if x\n\tif y\n\t  z\n# c\n\nw" with
  | error e => rw [h] at hsymbols; cases hsymbols
  | ok ts =>
    rw [h] at hsymbols
    exact ⟨ts, rfl, logicalLines h, Option.some.inj hsymbols⟩

end Lexeme.Python
