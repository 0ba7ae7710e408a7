import Lexeme.Proofs.Python.Lossless
import Lexeme.Proofs.Python.Strings
import Lexeme.Proofs.Python.Symbols
import Lexeme.Proofs.Text.Letters

/-!
# How far words and operators go

What is cut off a line is told by its first characters: a string, else a number, else a word, else an operator (`Cuts`).
A word is the longest run of letters, digits and underscores, and an operator is the longest one of the list that begins
the text (`operator?_longest`), whatever comes after. So is every token of a text (`tokens_cut`): what a step cuts off,
the run cuts off (`Run.forall_split`).
-/

namespace Lexeme.Python

/-! ## Segments and what follows them -/

/-- What holds of a segment and the text that it begins, at the beginning of a line and inside lines, holds of every segment
of a step. -/
theorem Step.forall_split {P : List Char → Segment Kind → Prop}
    (hline : ∀ {levels : List Nat} {t : List Char} {s : Segment Kind},
      s ∈ (indentation levels (spanOf isBlank t).1 (spanOf isBlank t).2).1 → ∀ u, P u s)
    (hinside : ∀ {st : State} {c : Char} {rest : List Char} {n : Next}, next st c rest = .ok n → P (c :: rest) n.1)
    {st after : State} {t left : List Char} {found first more : List (Segment Kind)} {s : Segment Kind}
    (h : Step st t found after left) (hfound : found = first ++ s :: more) :
    P (s.text ++ (Segment.joined more ++ left)) s := by
  have hjoined := h.joined_append
  cases h with
  | @line c rest _ levels _ h =>
    have hmem : s ∈ (indentation st.levels (spanOf isBlank (c :: rest)).1 (spanOf isBlank (c :: rest)).2).1 := by
      rw [h, hfound]
      simp
    exact hline hmem _
  | inside _ h =>
    -- the one segment of the step begins the whole text
    obtain ⟨rfl, hrest⟩ : first = [] ∧ _ = s :: more := by
      cases first with
      | nil => exact ⟨rfl, hfound⟩
      | cons u first => simp at hfound
    obtain ⟨rfl, rfl⟩ := List.cons.inj hrest
    rw [Segment.joined_cons, List.append_assoc] at hjoined
    rw [hjoined]
    exact hinside h

/-- What holds of a segment and the text that it begins, at the beginning of a line and inside lines, holds of every segment
of a run. -/
theorem Run.forall_split {P : List Char → Segment Kind → Prop}
    (hline : ∀ {levels : List Nat} {t : List Char} {s : Segment Kind},
      s ∈ (indentation levels (spanOf isBlank t).1 (spanOf isBlank t).2).1 → ∀ u, P u s)
    (hinside : ∀ {st : State} {c : Char} {rest : List Char} {n : Next}, next st c rest = .ok n → P (c :: rest) n.1)
    {st last : State} {t left : List Char} {segments first more : List (Segment Kind)} {s : Segment Kind}
    (h : Run st t segments last left) (hsegments : segments = first ++ s :: more) :
    P (s.text ++ (Segment.joined more ++ left)) s := by
  induction h generalizing first with
  | refl => simp at hsegments
  | @step _ _ _ _ t _ found segments hstep hrun ih =>
    rcases exists_split_of_append hsegments with ⟨inner, hfound⟩ | ⟨inner, -, hrest⟩
    · obtain rfl : more = inner ++ segments := by simpa [hfound] using hsegments.symm
      have hsplit := hstep.forall_split hline hinside hfound
      rwa [← hrun.joined_append, ← List.append_assoc (Segment.joined inner), ← Segment.joined_append] at hsplit
    · exact ih hrest

/-! ## Letters before a quote -/

/-- Whether the word that begins a text may stand before a quote, in either case, and a quote follows it. -/
def IsMarked (left : List Char) : Prop :=
  (left.takeWhile isWordChar).map Char.toLower ∈ stringPrefixes ∧
    ∃ quote ∈ (left.dropWhile isWordChar).head?, isQuote quote = true

theorem isWordChar_of_isWordStart {c : Char} (h : isWordStart c = true) : isWordChar c = true := by
  simp only [isWordStart, Bool.or_eq_true] at h
  rcases h with h | h <;> simp [isWordChar, h]

theorem isWordChar_of_isQuote {c : Char} (h : isQuote c = true) : isWordChar c = false := by
  rcases isQuote_iff.mp h with rfl | rfl <;> decide +kernel

/-- A text that begins with a word begins with a string exactly if the word may stand before the quote that follows it. -/
theorem isMarked_iff {c : Char} {rest : List Char} (hc : isWordStart c = true) :
    IsMarked (c :: rest) ↔ ∃ mark, stringPrefix? (c :: rest) = some mark := by
  constructor
  · rintro ⟨hmark, quote, hhead, hquote⟩
    obtain ⟨after, hdrop⟩ := List.head?_eq_some_iff.mp hhead
    refine ⟨(c :: rest).takeWhile isWordChar, stringPrefix?_eq_some_iff.mpr ⟨.inr hmark, quote, after, ?_, hquote⟩⟩
    rw [← hdrop, List.takeWhile_append_dropWhile]
  · rintro ⟨mark, hmark⟩
    obtain ⟨hletters, quote, after, hleft, hquote⟩ := stringPrefix?_eq_some_iff.mp hmark
    have hword : ∀ d ∈ mark, isWordChar d = true := fun d hd => isWordChar_of_isWordStart (hletters.isWordStart d hd)
    have hstop : ¬isWordChar quote = true := by simp [isWordChar_of_isQuote hquote]
    have htake : (c :: rest).takeWhile isWordChar = mark := by
      rw [hleft, List.takeWhile_append_of_pos hword, List.takeWhile_cons_of_neg hstop, List.append_nil]
    have hdrop : (c :: rest).dropWhile isWordChar = quote :: after := by
      rw [hleft, List.dropWhile_append_of_pos hword, List.dropWhile_cons_of_neg hstop]
    refine ⟨?_, quote, by simp [hdrop], hquote⟩
    rw [htake]
    rcases hletters with rfl | hmem
    · -- without letters the text would begin with the quote
      rw [(List.cons.inj hleft).1, isWordStart, Bool.or_eq_true, decide_eq_true_eq] at hc
      rcases isQuote_iff.mp hquote with rfl | rfl <;> revert hc <;> decide +kernel
    · exact hmem

/-! ## The longest operator -/

theorem mem_operatorsByLength {o : String} (h : o ∈ operators) : ∃ index, (o.toList, index) ∈ operatorsByLength := by
  obtain ⟨index, hindex⟩ := List.mem_iff_getElem?.mp h
  refine ⟨index, List.mem_mergeSort.mpr (List.mem_map.mpr ⟨(o, index), ?_, rfl⟩)⟩
  exact List.mem_zipIdx_iff_getElem?.mpr hindex

/-- Longer operators come first. -/
theorem pairwise_operatorsByLength : operatorsByLength.Pairwise fun a b => b.1.length ≤ a.1.length := by
  have hsorted : operatorsByLength.Pairwise fun a b => decide (b.1.length ≤ a.1.length) = true := by
    refine List.pairwise_mergeSort (fun a b c hab hbc => ?_) (fun a b => ?_) _
    · simp only [decide_eq_true_eq] at *
      omega
    · simp only [Bool.or_eq_true, decide_eq_true_eq]
      omega
  exact hsorted.imp of_decide_eq_true

/-- No operator that begins a text is longer than the one that is found. -/
theorem operator?_longest {left text : List Char} {index : Nat} (h : operator? left = some (text, index)) :
    ∀ o ∈ operators, o.toList <+: left → o.toList.length ≤ text.length := by
  intro o ho hbegins
  obtain ⟨i, hmem⟩ := mem_operatorsByLength ho
  obtain ⟨-, longer, shorter, hsplit, hnot⟩ := List.find?_eq_some_iff_append.mp h
  have hpairwise := pairwise_operatorsByLength
  rw [hsplit] at hmem hpairwise
  rcases List.mem_append.mp hmem with hmem | hmem
  · -- the first operator that begins the text has been found
    have hbefore := hnot _ hmem
    rw [List.isPrefixOf_iff_prefix.mpr hbegins] at hbefore
    cases hbefore
  · rcases List.mem_cons.mp hmem with heq | hmem
    · rw [← (Prod.mk.inj heq).1]
    · exact (List.pairwise_cons.mp (List.pairwise_append.mp hpairwise).2.1).1 _ hmem

/-! ## What is cut off a text -/

/-- What is cut off the beginning of a text: a string if one begins there, else a number, else a word, else an operator;
or blanks, a comment, or a mark of a line or a block, which no letter begins. -/
inductive Cuts (left : List Char) : Segment Kind → Prop
  | string {mark text : List Char} (h : stringPrefix? left = some mark) : Cuts left ⟨.string, text⟩
  | number (h : beginsNumber left = true) : Cuts left ⟨.number, (number left).1⟩
  | word (hstring : stringPrefix? left = none) (h : ∀ c ∈ left.head?, isWordStart c = true) :
      Cuts left ⟨wordKind (left.takeWhile isWordChar), left.takeWhile isWordChar⟩
  | operator {text : List Char} {index : Nat} (hnumber : beginsNumber left = false)
      (hword : ∀ c ∈ left.head?, isWordStart c = false) (h : operator? left = some (text, index)) :
      Cuts left ⟨.operator index, text⟩
  | mark {kind : Kind} {text : List Char}
      (hkind : kind.IsHidden ∨ kind = .newline ∨ kind = .indent ∨ kind = .dedent)
      (h : ∀ c ∈ text.head?, isWordStart c = false) : Cuts left ⟨kind, text⟩

theorem isWordStart_of_isBlank {c : Char} (h : isBlank c = true) : isWordStart c = false := by
  have hc : (c = ' ' ∨ c = '\t') ∨ c = '\x0c' := by simpa [isBlank] using h
  rcases hc with (rfl | rfl) | rfl <;> decide +kernel

theorem isWordStart_of_isLineBreak {c : Char} (h : isLineBreak c = true) : isWordStart c = false := by
  rcases isLineBreak_iff.mp h with rfl | rfl <;> decide +kernel

theorem cuts_content {st : State} {c : Char} {rest : List Char} {n : Next} (h : content st c (c :: rest) = .ok n) :
    Cuts (c :: rest) n.1 := by
  unfold content at h
  split at h
  · next hmark =>
    split at h
    · obtain rfl := Except.ok.inj h
      exact .string hmark
    · cases h
  · next hstring =>
    split at h
    · next hnumber =>
      obtain rfl := Except.ok.inj h
      exact .number hnumber
    · next hnumber =>
      split at h
      · next hword =>
        obtain rfl := Except.ok.inj h
        exact .word hstring (by simpa using hword)
      · next hword =>
        split at h
        · next hop =>
          obtain rfl := Except.ok.inj h
          exact .operator (by simpa using hnumber) (by simpa using hword) hop
        · cases h

theorem cuts_next {st : State} {c : Char} {rest : List Char} {n : Next} (h : next st c rest = .ok n) :
    Cuts (c :: rest) n.1 := by
  -- whatever is cut off begins with `c`
  have hhead : ∀ d ∈ n.1.text.head?, d = c := by
    intro d hd
    obtain ⟨text, htext⟩ := List.head?_eq_some_iff.mp hd
    have hbegins := (next_begins h).1
    rw [htext] at hbegins
    exact (List.cons.inj hbegins).1
  unfold next at h
  split at h
  · next hbreak =>
    have hc := isWordStart_of_isLineBreak hbreak
    obtain rfl := Except.ok.inj h
    unfold State.endLine at hhead ⊢
    split at hhead
    · next hend => rw [if_pos hend]; exact .mark (.inr (.inl rfl)) fun d hd => hhead d hd ▸ hc
    · next hend => rw [if_neg hend]; exact .mark (.inl (.inl rfl)) fun d hd => hhead d hd ▸ hc
  · split at h
    · next hblank =>
      obtain rfl := Except.ok.inj h
      exact .mark (.inl (.inl rfl)) fun d hd => hhead d hd ▸ isWordStart_of_isBlank hblank
    · split at h
      · next hslash =>
        have hc : isWordStart c = false := by rw [hslash.1]; decide +kernel
        obtain rfl := Except.ok.inj h
        exact .mark (.inl (.inl rfl)) fun d hd => hhead d hd ▸ hc
      · split at h
        · next hhash =>
          have hc : isWordStart c = false := by rw [hhash]; decide +kernel
          obtain rfl := Except.ok.inj h
          exact .mark (.inl (.inr rfl)) fun d hd => hhead d hd ▸ hc
        · exact cuts_content h

theorem cuts_indentation {levels : List Nat} {t left : List Char} {s : Segment Kind}
    (hs : s ∈ (indentation levels (spanOf isBlank t).1 (spanOf isBlank t).2).1) : Cuts left s := by
  obtain ⟨hkind, htext⟩ := of_mem_indentation hs
  obtain ⟨kind, text⟩ := s
  refine .mark ?_ fun c hc => ?_
  · rcases hkind with rfl | rfl | rfl
    · exact .inl (.inl rfl)
    · exact .inr (.inr (.inl rfl))
    · exact .inr (.inr (.inr rfl))
  · rcases htext with rfl | rfl
    · exact isWordStart_of_isBlank (List.mem_takeWhile_imp (List.mem_of_mem_head? hc))
    · cases hc

/-- Every segment of a whole text is cut off what the text is from there on. -/
theorem cuts_of_run {t : List Char} {segments first rest : List (Segment Kind)} {s : Segment Kind} {last : State}
    (hrun : Run .initial t segments last []) (h : segments ++ finish last = first ++ s :: rest) :
    Cuts (s.text ++ Segment.joined rest) s := by
  rcases exists_split_of_append h with ⟨more, hmore⟩ | ⟨more, -, hfinish⟩
  · obtain rfl : rest = more ++ finish last := by simpa [hmore] using h.symm
    rw [Segment.joined_append, joined_finish]
    exact hrun.forall_split (P := Cuts) (fun hs _ => cuts_indentation hs) cuts_next hmore
  · have hmem : s ∈ finish last := by simp [hfinish]
    obtain ⟨hkind, htext⟩ := of_mem_finish hmem
    obtain ⟨kind, text⟩ := s
    obtain rfl : text = [] := htext
    refine .mark ?_ nofun
    rcases hkind with rfl | rfl
    · exact .inr (.inl rfl)
    · exact .inr (.inr (.inr rfl))

/-! ## What is cut off, by its first character -/

section

variable {left : List Char} {s : Segment Kind} {c : Char}

/-- What begins a text has the first character of the text. -/
theorem head?_of_begins (hbegins : s.text <+: left) (hc : c ∈ s.text.head?) : left.head? = some c := by
  obtain ⟨rest, rfl⟩ := hbegins
  rw [List.head?_append, hc, Option.some_or]

/-- The first character of a number is no letter. -/
theorem isWordStart_of_beginsNumber (h : beginsNumber left = true) (hc : left.head? = some c) : isWordStart c = false := by
  obtain ⟨rest, rfl⟩ := List.head?_eq_some_iff.mp hc
  by_cases hdot : c = '.'
  · rw [hdot]
    decide +kernel
  · have hdigit : c.isDigit = true := by
      unfold beginsNumber at h
      split at h
      · next heq => exact absurd (List.cons.inj heq).1 hdot
      · next heq => exact (List.cons.inj heq).1 ▸ h
      · cases h
    refine Bool.eq_false_iff.mpr fun hstart => ?_
    rcases Bool.or_eq_true_iff.mp hstart with halphabetic | hunderscore
    · cases hdigit.symm.trans (Text.isDigit_eq_false_of_isAlphabetic halphabetic)
    · rw [of_decide_eq_true hunderscore] at hdigit
      cases hdigit

/-- A letter begins a string if the word may stand before the quote after it, else a whole word. -/
theorem Cuts.of_isWordStart (h : Cuts left s) (hbegins : s.text <+: left) (hc : c ∈ s.text.head?)
    (hstart : isWordStart c = true) :
    s.kind = .string ∧ IsMarked left ∨
      ¬IsMarked left ∧ s.kind = wordKind (left.takeWhile isWordChar) ∧ s.text = left.takeWhile isWordChar := by
  have hhead := head?_of_begins hbegins hc
  obtain ⟨rest, rfl⟩ := List.head?_eq_some_iff.mp hhead
  cases h with
  | string h => exact .inl ⟨rfl, (isMarked_iff hstart).mpr ⟨_, h⟩⟩
  | number h => cases hstart.symm.trans (isWordStart_of_beginsNumber h hhead)
  | word hstring =>
    refine .inr ⟨fun hmarked => ?_, rfl, rfl⟩
    obtain ⟨mark, hmark⟩ := (isMarked_iff hstart).mp hmarked
    cases hstring.symm.trans hmark
  | operator _ hword => cases hstart.symm.trans (hword c hhead)
  | mark _ htext => cases hstart.symm.trans (htext c hc)

/-- Any other character begins an operator, unless what is cut off has a name. -/
theorem Cuts.of_not_isWordStart (h : Cuts left s) (hbegins : s.text <+: left) (hc : c ∈ s.text.head?)
    (hstart : isWordStart c = false) :
    (s.kind = .string ∨ s.kind = .number ∨ s.kind.IsHidden ∨ s.kind = .newline ∨ s.kind = .indent ∨ s.kind = .dedent) ∨
      ∃ index, s.kind = .operator index ∧ operator? left = some (s.text, index) ∧ beginsNumber left = false := by
  cases h with
  | string => exact .inl (.inl rfl)
  | number => exact .inl (.inr (.inl rfl))
  | word _ hword => cases hstart.symm.trans (hword c (head?_of_begins hbegins hc))
  | operator hnumber _ h => exact .inr ⟨_, rfl, h, hnumber⟩
  | mark hkind => exact .inl (.inr (.inr hkind))

/-- What is called a name is a word that is no keyword. -/
theorem Cuts.of_name (h : Cuts left s) (hname : s.kind = .name) : String.ofList s.text ∉ keywords := by
  cases h with
  | string => cases hname
  | number => cases hname
  | word =>
    intro hmem
    obtain ⟨index, hindex⟩ := Option.isSome_iff_exists.mp (List.isSome_idxOf?.mpr hmem)
    dsimp only at hname
    rw [wordKind, hindex] at hname
    cases hname
  | operator => cases hname
  | mark hkind =>
    obtain rfl : _ = _ := hname
    rcases hkind with (hkind | hkind) | hkind | hkind | hkind <;> cases hkind

end

/-! ## Tokens -/

/-- Whether a token is the whole word that begins a text, and is called by what it spells: a keyword, or else a name. -/
structure IsWholeWord (left : List Char) (t : Token) : Prop where
  text_eq : t.text.toList = left.takeWhile isWordChar
  kind_eq : vocabulary.kind? t.category = some (if t.text ∈ keywords then ⟨some t.text, none⟩ else ⟨none, some "NAME"⟩)

/-- Whether a token is the longest operator that begins a text, and is called by what it spells. -/
structure IsLongestOperator (left : List Char) (t : Token) : Prop where
  mem : t.text ∈ operators
  begins : t.text.toList <+: left
  longest : ∀ o ∈ operators, o.toList <+: left → o.length ≤ t.text.length
  kind_eq : vocabulary.kind? t.category = some ⟨some t.text, none⟩
  notNumber : ∀ c rest, left = '.' :: c :: rest → c.isDigit = false

/-- How a token is cut off the text from its place on. A letter or an underscore begins a string exactly if the word may
stand before the quote that follows it, and else a whole word. Any other character begins the longest operator, unless the
token is hidden or has a name. -/
structure IsCut (left : List Char) (t : Token) : Prop where
  string_iff : ∀ c ∈ t.text.toList.head?, isWordStart c = true → (symbolOf t = some "STRING" ↔ IsMarked left)
  word : ∀ c ∈ t.text.toList.head?, isWordStart c = true → symbolOf t ≠ some "STRING" → IsWholeWord left t
  operator : ∀ c ∈ t.text.toList.head?, isWordStart c = false → t.channel ≠ hiddenChannel →
    symbolOf t ∉ [some "STRING", some "NUMBER", some "NEWLINE", some "INDENT", some "DEDENT"] → IsLongestOperator left t
  name : symbolOf t = some "NAME" → t.text ∉ keywords

/-- A word is called a name exactly if it is not a keyword. -/
theorem kind?_wordKind (word : List Char) : vocabulary.kind? (wordKind word).category =
    some (if String.ofList word ∈ keywords then ⟨some (String.ofList word), none⟩ else ⟨none, some "NAME"⟩) := by
  rw [Kind.kind?_category (isPlain_wordKind word).proper]
  unfold wordKind
  split
  · next index h =>
    obtain ⟨hlt, hword, -⟩ := List.idxOf?_eq_some_iff.mp h
    rw [if_pos (hword ▸ List.getElem_mem hlt), ← hword]
    simp [Kind.literal?, Kind.symbol?, List.getElem?_eq_getElem hlt]
  · next h =>
    rw [if_neg (List.idxOf?_eq_none_iff.mp h)]
    rfl

/-- The token of a segment is cut off as the segment is. -/
theorem isCut_of_cuts {before left : List Char} {s : Segment Kind} {t : Token} (hproper : s.kind.Proper) (hcuts : Cuts left s)
    (hbegins : s.text <+: left) (h : Segment.token? Kind.place before s = some t) : IsCut left t := by
  obtain ⟨htext, hplace, -⟩ := Segment.token?_eq_some_iff.mp h
  have hlist : t.text.toList = s.text := by rw [htext, String.toList_ofList]
  have hcategory := category_of_token? h
  have hsymbol := symbolOf_of_token? hproper h
  have hstring : symbolOf t = some "STRING" ↔ s.kind = .string := by
    rw [hsymbol]
    exact Kind.symbol?_eq_iff .string rfl
  constructor
  · intro c hc hstart
    rw [hlist] at hc
    rw [hstring]
    rcases hcuts.of_isWordStart hbegins hc hstart with ⟨hkind, hmarked⟩ | ⟨hmarked, hkind, -⟩
    · exact iff_of_true hkind hmarked
    · exact iff_of_false (hkind ▸ wordKind_ne_string _) hmarked
  · intro c hc hstart hne
    rw [hlist] at hc
    rcases hcuts.of_isWordStart hbegins hc hstart with ⟨hkind, -⟩ | ⟨-, hkind, hword⟩
    · exact absurd (hstring.mpr hkind) hne
    · refine ⟨hlist.trans hword, ?_⟩
      rw [hcategory, hkind, kind?_wordKind, ← hword, htext]
  · intro c hc hstart hchannel hne
    rw [hlist] at hc
    rcases hcuts.of_not_isWordStart hbegins hc hstart with hnamed | ⟨index, hkind, hop, hnumber⟩
    · rw [hsymbol] at hne
      have hshown : s.kind.channel ≠ hiddenChannel := by
        have hplaced : s.kind.channel = t.channel := congrArg Prod.snd (Option.some.inj hplace)
        rwa [hplaced]
      rcases hnamed with hkind | hkind | hhidden | hkind | hkind | hkind
      · simp [hkind, Kind.symbol?] at hne
      · simp [hkind, Kind.symbol?] at hne
      · exact absurd hhidden.channel_eq hshown
      · simp [hkind, Kind.symbol?] at hne
      · simp [hkind, Kind.symbol?] at hne
      · simp [hkind, Kind.symbol?] at hne
    · have hspelled : operators[index]? = some t.text :=
        htext ▸ getElem?_operators_of_mem (List.mem_of_find?_eq_some hop)
      refine ⟨List.mem_of_getElem? hspelled, hlist ▸ hbegins, fun o ho hfits => ?_, ?_, fun d rest hleft => ?_⟩
      · rw [← String.length_toList, ← String.length_toList, hlist]
        exact operator?_longest hop o ho hfits
      · rw [hcategory, Kind.kind?_category hproper, hkind, Kind.literal?, Kind.symbol?, hspelled]
      · rwa [hleft] at hnumber
  · intro hname
    rw [hsymbol] at hname
    rw [htext]
    exact hcuts.of_name ((Kind.symbol?_eq_iff .name rfl).mp hname)

/-- Words and operators are cut off as far as they go, wherever they stand in a text, and no name spells a keyword. -/
theorem tokens_cut {source : String} {ts : List Token} (h : tokens source = .ok ts) {t : Token} (ht : t ∈ ts) :
    ∃ before left, source.toList = before ++ left ∧ t.position = Position.start.advanceBy before ∧
      t.text.toList <+: left ∧ IsCut left t := by
  obtain ⟨segments, last, hrun, rfl⟩ := exists_run_of_tokens h
  obtain ⟨ts, us, hts⟩ := List.append_of_mem ht
  obtain ⟨first, s, rest, hsegments, htoken, -⟩ := Segment.exists_segment_of_emitted hts
  rw [List.nil_append] at htoken
  obtain ⟨htext, -, hposition⟩ := Segment.token?_eq_some_iff.mp htoken
  have hproper := proper_of_run hrun s (by simp [hsegments])
  have hbegins : s.text <+: s.text ++ Segment.joined rest := List.prefix_append _ _
  have hsource : source.toList = Segment.joined first ++ (s.text ++ Segment.joined rest) := by
    have hjoined := hrun.joined_append
    rw [List.append_nil] at hjoined
    rw [← Segment.joined_cons, ← Segment.joined_append, ← hsegments, Segment.joined_append, joined_finish, List.append_nil,
      hjoined]
  refine ⟨_, _, hsource, hposition, ?_, isCut_of_cuts hproper (cuts_of_run hrun hsegments) hbegins htoken⟩
  rwa [htext, String.toList_ofList]

/-- A name that begins with a keyword, an operator that begins with shorter ones, and a string with letters before it. -/
theorem tokens_cut_longer :
    ∃ ts, tokens "ifé**=Rb''" = .ok ts ∧ ts.map Token.text = ["ifé", "**=", "Rb''", ""] ∧
      ∀ t ∈ ts, ∃ before left, "ifé**=Rb''".toList = before ++ left ∧
        t.position = Position.start.advanceBy before ∧ t.text.toList <+: left ∧ IsCut left t := by
  obtain ⟨hname, hoperator, hstring⟩ :
      next (State.initial.enterLine []) 'i' ['f', 'é', '*', '*', '=', 'R', 'b', '\'', '\''] =
        .ok (⟨.name, ['i', 'f', 'é']⟩, ⟨[], 0, false, true⟩, ['*', '*', '=', 'R', 'b', '\'', '\'']) ∧
      next ⟨[], 0, false, true⟩ '*' ['*', '=', 'R', 'b', '\'', '\''] =
        .ok (⟨.operator 45, ['*', '*', '=']⟩, ⟨[], 0, false, true⟩, ['R', 'b', '\'', '\'']) ∧
      next ⟨[], 0, false, true⟩ 'R' ['b', '\'', '\''] =
        .ok (⟨.string, ['R', 'b', '\'', '\'']⟩, ⟨[], 0, false, true⟩, []) := ⟨by cbv, by cbv, by cbv⟩
  have hline : Step .initial "ifé**=Rb''".toList [] (State.initial.enterLine []) "ifé**=Rb''".toList :=
    @Step.line .initial 'i' ['f', 'é', '*', '*', '=', 'R', 'b', '\'', '\''] [] [] rfl (by decide +kernel)
  have hrun := (Run.single hline).trans <| (Run.single (.inside rfl hname)).trans <|
    (Run.single (.inside rfl hoperator)).trans (Run.single (.inside rfl hstring))
  exact ⟨_, tokens_of_run hrun, rfl, fun t ht => tokens_cut (tokens_of_run hrun) ht⟩

end Lexeme.Python
