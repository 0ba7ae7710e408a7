import Lexeme.Proofs.Python.Steps

/-!
# What tokens are called

The category of a token names its kind, as long as keywords and operators are given by places that their lists have
(`Kind.Proper`); every segment of a text is of such a kind. So whatever tokens say, apart from their positions, their
segments say (`map_emitted`), and this is how all results about tokens come from results about segments.
-/

namespace Lexeme.Python

namespace Kind

/-- Whether the place of a keyword or an operator is one that its list has. -/
def Proper : Kind → Prop
  | keyword index => index < keywords.length
  | operator index => index < operators.length
  | _ => True

/-- What the tokens of a kind are called, if they are not anonymous. -/
def symbol? : Kind → Option String
  | keyword _ | operator _ => none
  | string => some "STRING"
  | number => some "NUMBER"
  | name => some "NAME"
  | newline => some "NEWLINE"
  | indent => some "INDENT"
  | dedent => some "DEDENT"
  | skip => some "SKIP_"
  | comment => some "COMMENT"

/-- The text of a keyword or an operator. -/
def literal? : Kind → Option String
  | keyword index => keywords[index]?
  | operator index => operators[index]?
  | _ => none

/-- The category of a kind is called by the text and the name of the kind. -/
theorem kind?_category {kind : Kind} (h : kind.Proper) :
    vocabulary.kind? kind.category = some ⟨kind.literal?, kind.symbol?⟩ := by
  have hnumbered (i : Nat) : vocabulary.kind? (i + 1) =
      (keywords.map (fun k => (⟨some k, none⟩ : Lexeme.Kind)) ++
        (operators.map (fun o => ⟨some o, none⟩) ++ symbols.map fun s => ⟨none, some s⟩))[i]? := by
    rw [vocabulary, Vocabulary.kind?_defineAll, List.append_assoc]
  cases kind with
  | keyword index =>
    have hlt : index < keywords.length := h
    rw [category, hnumbered, List.getElem?_append_left (by simpa using hlt), List.getElem?_map]
    simp [literal?, symbol?, List.getElem?_eq_getElem hlt]
  | operator index =>
    have hlt : index < operators.length := h
    rw [category, hnumbered, List.getElem?_append_right (by simp), List.getElem?_append_left (by simpa using hlt),
      List.getElem?_map]
    simp [literal?, symbol?, List.getElem?_eq_getElem hlt]
  | _ => rfl

theorem symbol?_category {kind : Kind} (h : kind.Proper) : vocabulary.symbol? kind.category = kind.symbol? := by
  rw [Vocabulary.symbol?, kind?_category h]
  rfl

theorem literalName?_category {kind : Kind} (h : kind.Proper) :
    vocabulary.literalName? kind.category = kind.literal?.map fun literal => s!"'{literal}'" := by
  rw [Vocabulary.literalName?, kind?_category h]
  rfl

/-- A name belongs to one kind. -/
theorem symbol?_eq_iff {kind : Kind} (other : Kind) (h : other.symbol?.isSome) : kind.symbol? = other.symbol? ↔ kind = other := by
  cases other <;> simp [symbol?] at h <;> cases kind <;> simp [symbol?]

theorem IsPlain.proper {kind : Kind} (h : kind.IsPlain) : kind.Proper := by
  cases kind <;> first | exact h | trivial

theorem IsHidden.proper {kind : Kind} (h : kind.IsHidden) : kind.Proper := by
  rcases h with rfl | rfl <;> trivial

theorem IsHidden.channel_eq {kind : Kind} (h : kind.IsHidden) : kind.channel = hiddenChannel := by
  rcases h with rfl | rfl <;> rfl

end Kind

/-! ## The kinds of a text -/

theorem Inside.proper {st after : State} {s : Segment Kind} (h : Inside st s after) : s.kind.Proper := by
  cases h with
  | newline => trivial
  | lineEnd => trivial
  | hidden _ h => exact h.proper
  | plain _ h => exact h.proper
  | operator _ h => exact (List.getElem?_eq_some_iff.mp h).1

theorem proper_indentation {levels : List Nat} {space rest : List Char} {s : Segment Kind}
    (hs : s ∈ (indentation levels space rest).1) : s.kind.Proper := by
  rcases (of_mem_indentation hs).1 with h | h | h <;>
  · rw [h]
    trivial

theorem Run.proper {st last : State} {t left : List Char} {segments : List (Segment Kind)}
    (h : Run st t segments last left) : ∀ s ∈ segments, s.kind.Proper :=
  h.forall_mem proper_indentation fun h => (next_inside h).proper

theorem proper_finish {st : State} : ∀ s ∈ finish st, s.kind.Proper := by
  intro s hs
  rcases (of_mem_finish hs).1 with h | h <;>
  · rw [h]
    trivial

/-- Every segment of a text that is cut to its end is of a proper kind. -/
theorem proper_of_run {st last : State} {t left : List Char} {segments : List (Segment Kind)}
    (h : Run st t segments last left) : ∀ s ∈ segments ++ finish last, s.kind.Proper := by
  intro s hs
  rcases List.mem_append.mp hs with hs | hs
  · exact h.proper s hs
  · exact proper_finish s hs

/-! ## What tokens say -/

/-- What a token is called. -/
def symbolOf (t : Token) : Option String := vocabulary.symbol? t.category

/-- What the visible tokens are called, in their order. -/
def visibleSymbols (ts : List Token) : List (Option String) := (ts.filter Token.isVisible).map symbolOf

/-- What is seen of some tokens: their categories and their texts. -/
def seen (ts : List Token) : List (Nat × String) := (ts.filter Token.isVisible).map fun t => (t.category, t.text)

/-- The segments that are seen. -/
def visible (segments : List (Segment Kind)) : List (Segment Kind) := segments.filter fun s => s.kind.channel = defaultChannel

theorem visible_append (segments more : List (Segment Kind)) : visible (segments ++ more) = visible segments ++ visible more :=
  List.filter_append ..

/-- The kinds of the segments that are seen. -/
def visibleKinds (segments : List (Segment Kind)) : List Kind :=
  (segments.map Segment.kind).filter fun kind => kind.channel = defaultChannel

theorem symbolOf_of_token? {before : List Char} {s : Segment Kind} {t : Token} (hs : s.kind.Proper)
    (h : Segment.token? Kind.place before s = some t) : symbolOf t = s.kind.symbol? := by
  rw [symbolOf, category_of_token? h, Kind.symbol?_category hs]

variable {segments : List (Segment Kind)}

/-- What tokens say, apart from their positions, is what their segments say. -/
theorem map_emitted (before : List Char) (segments : List (Segment Kind)) :
    (Segment.emitted Kind.place before segments).map (fun t => (t.text, t.category, t.channel)) =
      segments.map fun s => (String.ofList s.text, s.kind.category, s.kind.channel) := by
  rw [Segment.map_emitted]
  exact congrFun List.filterMap_eq_map segments

/-- Tokens are called by the kinds of their segments. -/
theorem map_symbolOf_emitted (h : ∀ s ∈ segments, s.kind.Proper) (before : List Char) :
    (Segment.emitted Kind.place before segments).map symbolOf = segments.map (·.kind.symbol?) := by
  have hsymbols := congrArg (List.map fun p => vocabulary.symbol? p.2.1) (map_emitted before segments)
  rw [List.map_map, List.map_map] at hsymbols
  exact hsymbols.trans (List.map_congr_left fun s hs => Kind.symbol?_category (h s hs))

/-- What is seen of tokens is what is seen of their segments. -/
theorem seen_emitted (before : List Char) (segments : List (Segment Kind)) :
    seen (Segment.emitted Kind.place before segments) =
      (visible segments).map fun s => (s.kind.category, String.ofList s.text) := by
  have hseen := congrArg (fun l => (l.filter (·.2.2 = defaultChannel)).map fun p => (p.2.1, p.1)) (map_emitted before segments)
  simp only [List.filter_map, List.map_map] at hseen
  exact hseen

/-- Visible tokens are called by the kinds of the segments that are seen. -/
theorem visibleSymbols_emitted (h : ∀ s ∈ segments, s.kind.Proper) (before : List Char) :
    visibleSymbols (Segment.emitted Kind.place before segments) = (visibleKinds segments).map Kind.symbol? := by
  have hsymbols := congrArg (List.map fun p => vocabulary.symbol? p.1) (seen_emitted before segments)
  rw [seen, List.map_map, List.map_map] at hsymbols
  rw [visibleKinds, List.filter_map, List.map_map]
  exact hsymbols.trans (List.map_congr_left fun s hs => Kind.symbol?_category (h s (List.mem_filter.mp hs).1))

end Lexeme.Python
