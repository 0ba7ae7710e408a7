import Lexeme.Grammar.Source
import Lexeme.Proofs.Grammar.Symbol
import Mathlib.Data.List.Nodup

/-!
# What parsed grammars satisfy

The elements of a parsed grammar satisfy more than their types say (`Element.WellFormed`): a literal has characters, a
set has members and its ranges are in order, a group has an alternative, a repeat is not directly inside another one, and
a reference names a token other than the end of the text. Each reader takes its symbols off the beginning of a list and
gives something well formed, if the symbols are (`Taken.Yields`); so a whole grammar is well formed
(`rulesWellFormed_of_parse`). A rule is added only if its name is new, so the names of rules are distinct
(`nodup_names_of_parse`).
-/

namespace Lexeme

open Grammar

/-! ## Elements -/

/-- Whether an element is a repeat. -/
def Element.isRepeated : Element → Bool
  | repeated _ _ _ => true
  | _ => false

mutual

/-- Whether an element is of the kind that grammars are read as. -/
def Element.WellFormed : Element → Prop
  | .literal text => text ≠ ""
  | .set _ items => ValidItems items
  | .any => True
  | .reference name => IsTokenName name ∧ name ≠ "EOF"
  | .group alternatives => alternatives ≠ [] ∧ ChoiceWellFormed alternatives
  | .repeated _ _ e => e.isRepeated = false ∧ e.WellFormed

/-- Whether all elements of a sequence are well formed. -/
def SequenceWellFormed : List Element → Prop
  | [] => True
  | e :: rest => e.WellFormed ∧ SequenceWellFormed rest

/-- Whether all elements of alternatives are well formed. -/
def ChoiceWellFormed : List (List Element) → Prop
  | [] => True
  | es :: rest => SequenceWellFormed es ∧ ChoiceWellFormed rest

end

theorem sequenceWellFormed_iff {es : List Element} : SequenceWellFormed es ↔ ∀ e ∈ es, e.WellFormed := by
  induction es with
  | nil => simp [SequenceWellFormed]
  | cons e es ih => simp [SequenceWellFormed, ih]

theorem choiceWellFormed_iff {alternatives : List (List Element)} :
    ChoiceWellFormed alternatives ↔ ∀ es ∈ alternatives, SequenceWellFormed es := by
  induction alternatives with
  | nil => simp [ChoiceWellFormed]
  | cons es rest ih => simp [ChoiceWellFormed, ih]

namespace Grammar

/-- Whether a reader that succeeds on `s` gives something with the property `Q`, and the rest is the end of `s`. -/
def Taken.Yields {α : Type} (r : Taken α) (s : List Placed) (Q : α → Prop) : Prop :=
  ∀ a rest, r = .ok (a, rest) → rest <:+ s ∧ Q a

section Yields

variable {α β : Type} {s t rest : List Placed} {Q : α → Prop}

theorem Taken.yields_error (e : Error) : Taken.Yields (.error e) s Q := by
  intro a rest h
  cases h

theorem Taken.yields_ok {a : α} (hrest : rest <:+ s) (ha : Q a) : Taken.Yields (.ok (a, rest)) s Q := by
  intro b rest h
  cases h
  exact ⟨hrest, ha⟩

/-- What is read from the end of a list is read from the list. -/
theorem Taken.Yields.of_suffix {r : Taken α} (h : r.Yields t Q) (hsuffix : t <:+ s) : r.Yields s Q := by
  intro a rest hr
  obtain ⟨hrest, ha⟩ := h a rest hr
  exact ⟨hrest.trans hsuffix, ha⟩

theorem Taken.Yields.mapValue {r : Taken α} {f : α → β} {R : β → Prop} (h : r.Yields s Q) (hf : ∀ a, Q a → R (f a)) :
    (r.mapValue f).Yields s R := by
  intro b rest hr
  obtain ⟨a, ha, rfl⟩ := Taken.mapValue_eq_ok hr
  obtain ⟨hrest, hQ⟩ := h a rest ha
  exact ⟨hrest, hf a hQ⟩

end Yields

/-- Whether all symbols are well formed. -/
def AllWellFormed (s : List Placed) : Prop := ∀ x ∈ s, x.1.WellFormed

theorem AllWellFormed.of_suffix {s t : List Placed} (h : AllWellFormed s) (hsuffix : t <:+ s) : AllWellFormed t :=
  fun x hx => h x (hsuffix.subset hx)

variable {last : Position} {s rest : List Placed}

/-! ## Elements that are read -/

/-- An element before the marks of a repeat. -/
def IsOperand (e : Element) : Prop := e.isRepeated = false ∧ e.WellFormed

theorem isOperand_rangeOf {low high : String} {e : Element} (h : rangeOf? low high = some e) : IsOperand e := by
  unfold rangeOf? at h
  split at h
  · split at h
    · next hle =>
      cases h
      exact ⟨rfl, List.cons_ne_nil _ _, List.forall_mem_singleton.mpr hle⟩
    · cases h
  · cases h

theorem leaf?_yields {r : Taken Element} (hs : AllWellFormed s) (h : leaf? last s = some r) : r.Yields s IsOperand := by
  unfold leaf? at h
  split at h
  · split at h
    · cases h
      exact Taken.yields_error _
    · next text p rest hempty =>
      split at h
      · split at h
        · next hrange =>
          cases h
          refine Taken.yields_ok ?_ (isOperand_rangeOf hrange)
          exact ((List.suffix_cons _ _).trans (List.suffix_cons _ _)).trans (List.suffix_cons _ _)
        · cases h
          exact Taken.yields_error _
      · cases h
        exact Taken.yields_error _
      · cases h
        exact Taken.yields_ok (List.suffix_cons _ _) ⟨rfl, by simpa [Element.WellFormed] using hempty⟩
  · cases h
    exact Taken.yields_ok (List.suffix_cons _ _) ⟨rfl, hs _ List.mem_cons_self⟩
  · cases h
    exact Taken.yields_ok (List.suffix_cons _ _) ⟨rfl, trivial⟩
  · split at h
    · cases h
      exact Taken.yields_error _
    · next heof =>
      cases h
      exact Taken.yields_ok (List.suffix_cons _ _) ⟨rfl, hs _ List.mem_cons_self, heof⟩
  · cases h
    exact Taken.yields_error _
  · cases h

mutual

/-- The set whose complement is taken is valid. -/
theorem validItems_of_setItems? : ∀ {e : Element} {items : List SetItem},
    setItems? e = some items → e.WellFormed → ValidItems items
  | .set false items, _, h, he => by
    cases h
    exact he
  | .literal text, _, h, _ => by
    obtain ⟨c, -, rfl⟩ := Option.map_eq_some_iff.mp h
    exact ⟨List.cons_ne_nil _ _, List.forall_mem_singleton.mpr trivial⟩
  | .group alternatives, _, h, he => validItems_of_choiceItems? h he.1 he.2

theorem validItems_of_choiceItems? : ∀ {alternatives : List (List Element)} {items : List SetItem},
    choiceItems? alternatives = some items → alternatives ≠ [] → ChoiceWellFormed alternatives → ValidItems items
  | [], _, _, hne, _ => absurd rfl hne
  | [e] :: rest, items, h, _, hwf => by
    rw [choiceItems?] at h
    obtain ⟨first, hfirst, h⟩ := Option.bind_eq_some_iff.mp h
    obtain ⟨others, hothers, h⟩ := Option.bind_eq_some_iff.mp h
    cases h
    have hvalid := validItems_of_setItems? hfirst hwf.1.1
    refine ⟨fun hnil => hvalid.1 (List.append_eq_nil_iff.mp hnil).1, ?_⟩
    intro item hitem
    rcases List.mem_append.mp hitem with hitem | hitem
    · exact hvalid.2 item hitem
    · match rest with
      | [] =>
        cases hothers
        cases hitem
      | es :: rest =>
        exact (validItems_of_choiceItems? hothers (List.cons_ne_nil _ _) hwf.2).2 item hitem

end

theorem isOperand_complement? {count : Nat} {e found : Element} (h : complement? count e = some found)
    (he : IsOperand e) : IsOperand found := by
  induction count generalizing found with
  | zero =>
    cases h
    exact he
  | succ count ih =>
    obtain ⟨inner, hinner, h⟩ := Option.bind_eq_some_iff.mp h
    obtain ⟨items, hitems, h⟩ := Option.bind_eq_some_iff.mp h
    cases h
    exact ⟨rfl, validItems_of_setItems? hitems (ih hinner).2⟩

theorem greediness_suffix (s : List Placed) : (greediness s).2 <:+ s := by
  unfold greediness
  split
  · exact List.suffix_cons _ _
  · exact List.suffix_refl _

theorem quantified_yields {e : Element} (he : IsOperand e) (s : List Placed) :
    Taken.Yields (.ok (quantified e s)) s Element.WellFormed := by
  fun_cases quantified e s
  · exact Taken.yields_ok ((greediness_suffix _).trans (List.suffix_cons _ _)) he
  · exact Taken.yields_ok ((greediness_suffix _).trans (List.suffix_cons _ _)) he
  · exact Taken.yields_ok ((greediness_suffix _).trans (List.suffix_cons _ _)) he
  · exact Taken.yields_ok (List.suffix_refl _) he.2

theorem completed_yields {tildes : Nat} {e : Element} (he : IsOperand e) (s : List Placed) :
    (completed last tildes e s).Yields s Element.WellFormed := by
  unfold completed
  split
  · next hcomplement => exact quantified_yields (isOperand_complement? hcomplement he) s
  · exact Taken.yields_error _

/-! ## Sequences that are read -/

/-- Whether what encloses an open group is well formed. -/
structure Frame.WellFormed (frame : Frame) : Prop where
  before : SequenceWellFormed frame.before
  finished : ChoiceWellFormed frame.finished

theorem Frame.WellFormed.extend {frame : Frame} (h : frame.WellFormed) {es : List Element}
    (hes : SequenceWellFormed es) : (frame.extend es).WellFormed := by
  refine ⟨h.before, ?_, h.finished⟩
  rw [sequenceWellFormed_iff] at hes ⊢
  exact fun e he => hes e (List.mem_reverse.mp he)

theorem Frame.WellFormed.isOperand_group {frame : Frame} (h : frame.WellFormed) {es : List Element}
    (hes : SequenceWellFormed es) : IsOperand (frame.extend es).group := by
  refine ⟨rfl, by simp [Frame.extend], ?_⟩
  have hfinished := (h.extend hes).finished
  rw [choiceWellFormed_iff] at hfinished ⊢
  exact fun alternative halternative => hfinished alternative (List.mem_reverse.mp halternative)

theorem sequence_yields {rule : String} {frames : List Frame} {tildes : Nat} {current : List Element}
    {notices : List Notice} (hs : AllWellFormed s) (hframes : ∀ frame ∈ frames, frame.WellFormed)
    (hcurrent : SequenceWellFormed current) :
    (sequence last rule frames tildes current notices s).1.Yields s SequenceWellFormed := by
  fun_induction sequence last rule frames tildes current notices s with
  | case1 frames tildes current notices p rest ih =>
    have hsuffix := List.suffix_cons (Symbol.tilde, p) rest
    exact (ih (hs.of_suffix hsuffix) hframes hcurrent).of_suffix hsuffix
  | case2 frames tildes current notices p rest ih =>
    have hsuffix := List.suffix_cons (Symbol.leftParen, p) rest
    have hopen : ∀ frame ∈ Frame.enter current tildes :: frames, frame.WellFormed :=
      List.forall_mem_cons.mpr ⟨⟨hcurrent, trivial⟩, hframes⟩
    exact (ih (hs.of_suffix hsuffix) hopen trivial).of_suffix hsuffix
  | case3 => exact Taken.yields_error _
  | case4 => exact Taken.yields_error _
  | case5 frames tildes current notices body p rest _ _ ih =>
    have hsuffix := List.suffix_cons (Symbol.action body, p) rest
    exact (ih (hs.of_suffix hsuffix) hframes hcurrent).of_suffix hsuffix
  | case6 frames tildes current notices s _ _ _ leaf rest hleaf e after hcompleted ih =>
    obtain ⟨hrest, hoperand⟩ := leaf?_yields hs hleaf leaf rest rfl
    obtain ⟨hafter, he⟩ := completed_yields hoperand rest e after hcompleted
    have hsuffix := hafter.trans hrest
    exact (ih (hs.of_suffix hsuffix) hframes ⟨he, hcurrent⟩).of_suffix hsuffix
  | case7 => exact Taken.yields_error _
  | case8 => exact Taken.yields_error _
  | case9 => exact Taken.yields_error _
  | case10 tildes current notices _ s =>
    refine Taken.yields_ok (List.suffix_refl s) ?_
    rw [sequenceWellFormed_iff] at hcurrent ⊢
    exact fun e he => hcurrent e (List.mem_reverse.mp he)
  | case11 tildes current notices _ frame frames p rest _ _ _ _ ih =>
    have hsuffix := List.suffix_cons (Symbol.bar, p) rest
    obtain ⟨hframe, hframes⟩ := List.forall_mem_cons.mp hframes
    have hextended : ∀ f ∈ frame.extend current :: frames, f.WellFormed :=
      List.forall_mem_cons.mpr ⟨hframe.extend hcurrent, hframes⟩
    exact (ih (hs.of_suffix hsuffix) hextended trivial).of_suffix hsuffix
  | case12 tildes current notices _ frame frames p rest _ e after hcompleted _ _ _ ih =>
    obtain ⟨hframe, hframes⟩ := List.forall_mem_cons.mp hframes
    obtain ⟨hafter, he⟩ := completed_yields (hframe.isOperand_group hcurrent) rest e after hcompleted
    have hsuffix := hafter.trans (List.suffix_cons (Symbol.rightParen, p) rest)
    exact (ih (hs.of_suffix hsuffix) hframes ⟨he, hframe.before⟩).of_suffix hsuffix
  | case13 => exact Taken.yields_error _
  | case14 => exact Taken.yields_error _
  | case15 => exact Taken.yields_error _

/-! ## Rules that are read -/

theorem identifier_yields (s : List Placed) : (identifier last s).Yields s fun _ => True := by
  unfold identifier
  split
  · exact Taken.yields_ok (List.suffix_cons _ _) trivial
  · exact Taken.yields_ok (List.suffix_cons _ _) trivial
  · exact Taken.yields_error _

theorem block_yields (owner : String) (s : List Placed) : (block last owner s).Yields s fun _ => True := by
  unfold block
  split
  · exact Taken.yields_ok (List.suffix_cons _ _) trivial
  · exact Taken.yields_error _

theorem expect_suffix {symbol : Symbol} {what : String} (h : expect last symbol what s = .ok rest) : rest <:+ s := by
  unfold expect at h
  split at h
  · cases h
  · split at h
    · cases h
      exact List.suffix_cons _ _
    · cases h

/-- Taking one more symbol, whose value is known already. -/
theorem expect_yields {α : Type} {Q : α → Prop} {a : α} (ha : Q a) (symbol : Symbol) (what : String) (s : List Placed) :
    Taken.Yields ((expect last symbol what s).map (a, ·)) s Q := by
  cases h : expect last symbol what s with
  | error e => exact Taken.yields_error e
  | ok rest => exact Taken.yields_ok (expect_suffix h) ha

theorem channel_yields (rule : String) (channels : List String) (s : List Placed) :
    (channel last rule channels s).Yields s fun _ => True := by
  have hname (name : String) (t : List Placed) (ht : t <:+ s) :
      Taken.Yields ((channelOf rule channels name).map (·, t)) s fun _ => True := by
    cases channelOf rule channels name with
    | error e => exact Taken.yields_error e
    | ok number => exact Taken.yields_ok ht trivial
  unfold channel
  split
  · exact Taken.yields_ok (List.suffix_cons _ _) trivial
  · exact hname _ _ (List.suffix_cons _ _)
  · exact hname _ _ (List.suffix_cons _ _)
  · exact Taken.yields_error _

theorem channelArgument_yields (rule : String) (channels : List String) (s : List Placed) :
    (channelArgument last rule channels s).Yields s fun _ => True := by
  unfold channelArgument
  split
  · exact Taken.yields_error _
  · next t hopen =>
    split
    · exact Taken.yields_error _
    · next number u hchannel =>
      obtain ⟨hu, -⟩ := channel_yields rule channels t number u hchannel
      exact (expect_yields trivial _ _ u).of_suffix (hu.trans (expect_suffix hopen))

theorem command_yields (rule : String) (channels : List String) (action : Action) (s : List Placed) :
    (command last rule channels action s).Yields s fun _ => True := by
  unfold command
  split
  · exact Taken.yields_error _
  · next name t hname =>
    obtain ⟨ht, -⟩ := identifier_yields s name t hname
    split
    · exact Taken.yields_ok ht trivial
    · split
      · exact ((channelArgument_yields rule channels t).mapValue fun _ _ => trivial).of_suffix ht
      · split <;> exact Taken.yields_error _

theorem commands_yields (rule : String) (channels : List String) (action : Action) (s : List Placed) :
    (commands last rule channels action s).Yields s fun _ => True := by
  fun_induction commands last rule channels action s with
  | case1 => exact Taken.yields_error _
  | case2 action s found p rest hcommand ih =>
    obtain ⟨hrest, -⟩ := command_yields rule channels action s _ _ hcommand
    exact ih.of_suffix ((List.suffix_cons _ _).trans hrest)
  | case3 action s found rest _ hcommand =>
    obtain ⟨hrest, -⟩ := command_yields rule channels action s _ _ hcommand
    exact Taken.yields_ok hrest trivial

theorem actionOf_yields (rule : String) (channels : List String) (s : List Placed) :
    (actionOf last rule channels s).Yields s fun _ => True := by
  unfold actionOf
  split
  · exact (commands_yields rule channels _ _).of_suffix (List.suffix_cons _ _)
  · exact Taken.yields_ok (List.suffix_refl _) trivial

theorem alternatives_yields {rule : String} {channels : List String} {done : List (List Element × Action)}
    {notices : List Notice} (hs : AllWellFormed s) (hdone : ∀ a ∈ done, SequenceWellFormed a.1) :
    (alternatives last rule channels done notices s).1.Yields s fun found => ∀ a ∈ found, SequenceWellFormed a.1 := by
  have hnil : SequenceWellFormed [] := trivial
  fun_induction alternatives last rule channels done notices s with
  | case1 => exact Taken.yields_error _
  | case2 => exact Taken.yields_error _
  | case3 done notices s es rest found hsequence action p after haction ih =>
    obtain ⟨hrest, hes⟩ := sequence_yields hs (by simp) hnil es rest (congrArg Prod.fst hsequence)
    obtain ⟨hafter, -⟩ := actionOf_yields rule channels rest _ _ haction
    have hsuffix := ((List.suffix_cons _ _).trans hafter).trans hrest
    exact (ih (hs.of_suffix hsuffix) (List.forall_mem_cons.mpr ⟨hes, hdone⟩)).of_suffix hsuffix
  | case4 done notices s es rest found hsequence action p after haction =>
    obtain ⟨hrest, hes⟩ := sequence_yields hs (by simp) hnil es rest (congrArg Prod.fst hsequence)
    obtain ⟨hafter, -⟩ := actionOf_yields rule channels rest _ _ haction
    refine Taken.yields_ok (((List.suffix_cons _ _).trans hafter).trans hrest) fun a ha => ?_
    rcases List.mem_cons.mp (List.mem_reverse.mp ha) with rfl | ha
    · exact hes
    · exact hdone a ha
  | case5 => exact Taken.yields_error _

end Grammar

/-- Whether a rule is of the kind that grammars are read as. -/
structure Rule.WellFormed (rule : Rule) : Prop where
  name : IsTokenName rule.name
  alternatives_ne_nil : rule.alternatives ≠ []
  alternatives : ChoiceWellFormed rule.alternatives

namespace Grammar

variable {last : Position} {s rest : List Placed}

theorem ruleOptions_suffix {rest : List Placed} (h : ruleOptions last s = .ok rest) : rest <:+ s := by
  unfold ruleOptions at h
  split at h
  · next p t =>
    cases hblock : block last "options" t with
    | error e =>
      rw [hblock] at h
      cases h
    | ok r =>
      rw [hblock] at h
      obtain ⟨hrest, -⟩ := block_yields "options" t r.1 r.2 hblock
      rw [show rest = r.2 from (Except.ok.inj h).symm]
      exact hrest.trans (List.suffix_cons _ _)
  · cases h
    exact List.suffix_refl _

theorem ruleOf_yields {isFragment : Bool} {name : String} {line : Nat} {found : List (List Element × Action)}
    (hname : IsTokenName name) (hfound : ∀ a ∈ found, SequenceWellFormed a.1) (s : List Placed) :
    (ruleOf last isFragment name line found s).Yields s Rule.WellFormed := by
  unfold ruleOf
  split
  · exact Taken.yields_error _
  · next es action others =>
    split
    · refine Taken.yields_ok (List.suffix_refl s) ⟨hname, by simp, ?_⟩
      rw [choiceWellFormed_iff]
      intro es hes
      obtain ⟨a, ha, rfl⟩ := List.mem_map.mp hes
      exact hfound a ha
    · exact Taken.yields_error _

theorem rule_yields (hs : AllWellFormed s) (channels : List String) (isFragment : Bool) (notices : List Notice) :
    (rule last channels isFragment notices s).1.Yields s Rule.WellFormed := by
  unfold rule
  split
  · next name p t =>
    have hname : IsTokenName name := hs _ List.mem_cons_self
    have ht := List.suffix_cons (Symbol.tokenName name, p) t
    split
    · exact Taken.yields_error _
    · next u hu =>
      have hcolon : u <:+ t := by
        cases hoptions : ruleOptions last t with
        | error e =>
          rw [hoptions] at hu
          cases hu
        | ok v =>
          rw [hoptions] at hu
          exact (expect_suffix hu).trans (ruleOptions_suffix hoptions)
      have hsuffix := hcolon.trans ht
      split
      · exact Taken.yields_error _
      · next found rest notices hfound =>
        obtain ⟨hrest, hwf⟩ := alternatives_yields (hs.of_suffix hsuffix) (by simp) _ _ (congrArg Prod.fst hfound)
        exact (ruleOf_yields hname hwf rest).of_suffix (hrest.trans hsuffix)
  · exact Taken.yields_error _

/-! ## Grammars that are read -/

/-- Whether all rules of a grammar are well formed. -/
def RulesWellFormed (g : Grammar) : Prop := ∀ rule ∈ g.rules, rule.WellFormed

theorem nameBlock_yields (owner : String) (s : List Placed) : (nameBlock last owner s).Yields s fun _ => True := by
  unfold nameBlock
  split
  · exact Taken.yields_error _
  · next body t hblock =>
    obtain ⟨ht, -⟩ := block_yields owner s body t hblock
    cases names last body t with
    | error e => exact Taken.yields_error e
    | ok found => exact Taken.yields_ok ht trivial

theorem actionName_yields (s : List Placed) : (actionName last s).Yields s fun _ => True := by
  unfold actionName
  split
  · exact Taken.yields_error _
  · next scope p t hscope =>
    obtain ⟨ht, -⟩ := identifier_yields s _ _ hscope
    exact ((identifier_yields t).mapValue fun _ _ => trivial).of_suffix ((List.suffix_cons _ _).trans ht)
  · next name t _ hname =>
    obtain ⟨ht, -⟩ := identifier_yields s _ _ hname
    exact Taken.yields_ok ht trivial

theorem namedAction_yields (s : List Placed) : (namedAction last s).Yields s fun _ => True := by
  unfold namedAction
  split
  · exact Taken.yields_error _
  · next name t hname =>
    obtain ⟨ht, -⟩ := actionName_yields s _ _ hname
    exact ((block_yields _ t).mapValue fun _ _ => trivial).of_suffix ht

theorem parserRule_yields (name : String) (literals : List String) (s : List Placed) :
    (parserRule last name literals s).Yields s fun _ => True := by
  fun_induction parserRule last name literals s with
  | case1 => exact Taken.yields_error _
  | case2 => exact Taken.yields_ok (List.suffix_cons _ _) trivial
  | case3 literals text p rest _ ih => exact ih.of_suffix (List.suffix_cons _ _)
  | case4 literals text p rest _ ih => exact ih.of_suffix (List.suffix_cons _ _)
  | case5 literals x rest _ _ ih => exact ih.of_suffix (List.suffix_cons _ _)

theorem handler_yields (name : String) (s : List Placed) : (handler last name s).Yields s fun _ => True := by
  unfold handler
  split
  · exact (block_yields name _).of_suffix (List.suffix_cons _ _)
  · exact block_yields name s

theorem addRule_yields {g : Grammar} (hg : g.RulesWellFormed) {read : Noticed Rule}
    (h : read.1.Yields s Rule.WellFormed) : (addRule g read).1.Yields s RulesWellFormed := by
  unfold addRule
  split
  · exact Taken.yields_error _
  · next rule rest notices =>
    obtain ⟨hrest, hrule⟩ := h rule rest rfl
    split
    · exact Taken.yields_error _
    · exact Taken.yields_ok hrest (List.forall_mem_cons.mpr ⟨hrule, hg⟩)

theorem wordDeclaration_yields {g : Grammar} (hg : g.RulesWellFormed) (hs : AllWellFormed s) (onlyLexer : Bool)
    (notices : List Notice) (word : String) (p : Position) :
    (wordDeclaration last onlyLexer g notices word p s).1.Yields s RulesWellFormed := by
  -- names and parser literals leave the rules as they are
  have hkeeps {r : Taken (List String)} (hr : r.Yields s fun _ => True) {f : List String → Grammar}
      (hf : ∀ names, (f names).rules = g.rules) : (r.mapValue f).Yields s RulesWellFormed := by
    refine hr.mapValue fun names _ => ?_
    unfold RulesWellFormed
    rw [hf]
    exact hg
  unfold wordDeclaration
  split
  · exact (block_yields word s).mapValue fun _ _ => hg
  split
  · dsimp only
    exact hkeeps (nameBlock_yields word s) fun _ => rfl
  split
  · dsimp only
    exact hkeeps (nameBlock_yields word s) fun _ => rfl
  split
  · exact Taken.yields_error _
  split
  · exact Taken.yields_error _
  split
  · exact addRule_yields hg (rule_yields hs g.channels true notices)
  split
  · exact Taken.yields_error _
  split
  · exact (handler_yields word s).mapValue fun _ _ => hg
  · dsimp only
    exact hkeeps (parserRule_yields word g.parserLiterals s) fun _ => rfl

theorem declaration_yields {g : Grammar} (hg : g.RulesWellFormed) {symbol : Symbol} {p : Position}
    (hs : AllWellFormed ((symbol, p) :: s)) (onlyLexer : Bool) (notices : List Notice) :
    (declaration last onlyLexer g notices symbol p s).1.Yields ((symbol, p) :: s) RulesWellFormed := by
  have hsuffix := List.suffix_cons (symbol, p) s
  unfold declaration
  split
  · exact (wordDeclaration_yields hg (hs.of_suffix hsuffix) onlyLexer notices _ p).of_suffix hsuffix
  · exact addRule_yields hg (rule_yields hs g.channels false notices)
  · split
    · exact Taken.yields_error _
    · next name rest hname =>
      obtain ⟨hrest, -⟩ := namedAction_yields s _ _ hname
      exact Taken.yields_ok (hrest.trans hsuffix) hg
  · exact Taken.yields_error _

theorem rulesWellFormed_of_declarations {onlyLexer : Bool} {g found : Grammar} {notices : List Notice}
    (h : (declarations last onlyLexer g notices s).1 = .ok found) (hg : g.RulesWellFormed) (hs : AllWellFormed s) :
    found.RulesWellFormed := by
  fun_induction declarations last onlyLexer g notices s with
  | case1 g notices =>
    cases h
    exact fun rule hrule => hg rule (List.mem_reverse.mp hrule)
  | case2 g notices symbol p s next rest notices' hdeclaration ih =>
    obtain ⟨hrest, hnext⟩ := declaration_yields hg hs onlyLexer notices _ _ (congrArg Prod.fst hdeclaration)
    exact ih h hnext (hs.of_suffix hrest)
  | case3 => cases h

theorem title_yields (s : List Placed) : (title last s).Yields s fun _ => True := by
  unfold title
  split
  · next p t =>
    split
    · exact Taken.yields_error _
    · next name u hname =>
      obtain ⟨hu, -⟩ := identifier_yields t _ _ hname
      exact (expect_yields trivial _ _ u).of_suffix (hu.trans (List.suffix_cons _ _))
  · exact Taken.yields_error _

theorem header_yields (s : List Placed) : (header last s).Yields s fun _ => True := by
  unfold header
  split
  · exact ((title_yields _).mapValue fun _ _ => trivial).of_suffix (List.suffix_cons _ _)
  · exact Taken.yields_error _
  · exact (title_yields s).mapValue fun _ _ => trivial

/-- All rules of a parsed grammar are well formed. -/
theorem rulesWellFormed_of_parse {source : String} {g : Grammar} (h : parse source = .ok g) : g.RulesWellFormed := by
  unfold parse read at h
  split at h
  · cases h
  · next s hs =>
    have hwf : AllWellFormed s := wellFormed_of_symbols hs
    unfold ofSymbols at h
    dsimp only at h
    split at h
    · cases h
    · next name onlyLexer rest hheader =>
      obtain ⟨hrest, -⟩ := header_yields s _ _ hheader
      exact rulesWellFormed_of_declarations h (by simp [RulesWellFormed]) (hwf.of_suffix hrest)

/-! ## The names of rules -/

/-- Whether a grammar has the rules of another one, or one more, of a new name. -/
def AddsRule (g found : Grammar) : Prop :=
  found.rules = g.rules ∨ ∃ rule, found.rules = rule :: g.rules ∧ rule.name ∉ g.rules.map Rule.name

theorem addsRule_of_addRule {g found : Grammar} {read : Noticed Rule} (h : (addRule g read).1 = .ok (found, rest)) :
    AddsRule g found := by
  unfold addRule at h
  split at h
  · cases h
  · next rule _ _ =>
    split at h
    · cases h
    · next hnew =>
      cases h
      exact .inr ⟨rule, rfl, by simpa using hnew⟩

theorem addsRule_of_wordDeclaration {g found : Grammar} {onlyLexer : Bool} {notices : List Notice} {word : String}
    {p : Position} (h : (wordDeclaration last onlyLexer g notices word p s).1 = .ok (found, rest)) : AddsRule g found := by
  have hkeeps {α : Type} {r : Taken α} {f : α → Grammar} (h : (r.mapValue f, notices).1 = .ok (found, rest))
      (hf : ∀ a, (f a).rules = g.rules) : AddsRule g found := by
    obtain ⟨a, -, rfl⟩ := Taken.mapValue_eq_ok h
    exact .inl (hf a)
  unfold wordDeclaration at h
  split at h
  · exact hkeeps h fun _ => rfl
  split at h
  · exact hkeeps h fun _ => rfl
  split at h
  · exact hkeeps h fun _ => rfl
  split at h
  · cases h
  split at h
  · cases h
  split at h
  · exact addsRule_of_addRule h
  split at h
  · cases h
  split at h
  · exact hkeeps h fun _ => rfl
  · exact hkeeps h fun _ => rfl

/-- A declaration leaves the rules as they are, or adds one of a new name. -/
theorem addsRule_of_declaration {g found : Grammar} {onlyLexer : Bool} {notices : List Notice} {symbol : Symbol}
    {p : Position} (h : (declaration last onlyLexer g notices symbol p s).1 = .ok (found, rest)) : AddsRule g found := by
  unfold declaration at h
  split at h
  · exact addsRule_of_wordDeclaration h
  · exact addsRule_of_addRule h
  · split at h
    · cases h
    · cases h
      exact .inl rfl
  · cases h

theorem AddsRule.nodup_names {g found : Grammar} (h : AddsRule g found) (hg : (g.rules.map Rule.name).Nodup) :
    (found.rules.map Rule.name).Nodup := by
  rcases h with heq | ⟨rule, heq, hnew⟩
  · rw [heq]
    exact hg
  · rw [heq, List.map_cons]
    exact List.nodup_cons.mpr ⟨hnew, hg⟩

theorem nodup_names_of_declarations {onlyLexer : Bool} {g found : Grammar} {notices : List Notice}
    (h : (declarations last onlyLexer g notices s).1 = .ok found) (hg : (g.rules.map Rule.name).Nodup) :
    (found.rules.map Rule.name).Nodup := by
  fun_induction declarations last onlyLexer g notices s with
  | case1 g notices =>
    cases h
    rw [List.map_reverse]
    exact List.nodup_reverse.mpr hg
  | case2 g notices symbol p s next rest notices' hdeclaration ih =>
    exact ih h ((addsRule_of_declaration (congrArg Prod.fst hdeclaration)).nodup_names hg)
  | case3 => cases h

/-- The rules of a parsed grammar have different names. -/
theorem nodup_names_of_parse {source : String} {g : Grammar} (h : parse source = .ok g) :
    (g.rules.map Rule.name).Nodup := by
  unfold parse read at h
  split at h
  · cases h
  · unfold ofSymbols at h
    dsimp only at h
    split at h
    · cases h
    · exact nodup_names_of_declarations h .nil

end Grammar

end Lexeme
