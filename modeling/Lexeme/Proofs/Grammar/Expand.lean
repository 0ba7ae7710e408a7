import Lexeme.Proofs.Grammar.Expander
import Lexeme.Proofs.Grammar.Meaning
import Lexeme.Proofs.Grammar.WellFormed

/-!
# Patterns keep the meaning of rules

The pattern of a rule is right (`IsPatternOfRule`) if it can be read from its text and matches as the body of the rule
does once all references have been replaced. Each step of an expansion makes right patterns out of right ones, and keeps
only right ones in the memory (`keeps_findRule`); so the memory stays right whichever rules have been compiled before.
-/

namespace Lexeme.Grammar

/-! ## Right patterns -/

/-- Whether a pattern can be read and matches as an element does. -/
def IsPatternOf (g : Grammar) (e : Element) (p : Pattern) : Prop :=
  p.Readable false ∧ ∃ body, Inlined g e body ∧ ∀ s, p.rests s = body.rests s

/-- Whether patterns can be read and match one after the other as elements do. -/
def ArePatternsOf (g : Grammar) (es : List Element) (ps : List Pattern) : Prop :=
  (∀ p ∈ ps, p.Readable false) ∧
    ∃ bodies, InlinedSequence g es bodies ∧ ∀ s, Pattern.allRests ps s = sequenceRests bodies s

/-- Whether the patterns of alternatives can be read and match in turn as the alternatives do. -/
def AreChoiceOf (g : Grammar) (alternatives : List (List Element)) (choices : List (List Pattern)) : Prop :=
  (∀ ps ∈ choices, ∀ p ∈ ps, p.Readable false) ∧ choices.length = alternatives.length ∧
    ∃ bodies, InlinedChoice g alternatives bodies ∧
      ∀ s, (choices.flatMap fun ps => Pattern.allRests ps s) = choiceRests bodies s

/-- Whether a pattern can be read and matches as the rule of a name does. -/
def IsPatternOfRule (g : Grammar) (name : String) (p : Pattern) : Prop :=
  p.Readable false ∧ ∃ rule body, g.rule? name = some rule ∧ InlinedChoice g rule.alternatives body ∧
    ∀ s, p.rests s = choiceRests body s

variable {g : Grammar}

theorem ArePatternsOf.nil : ArePatternsOf g [] [] :=
  ⟨fun _ hp => (List.not_mem_nil hp).elim, [], .nil, fun _ => rfl⟩

theorem ArePatternsOf.cons {e : Element} {es : List Element} {p : Pattern} {ps : List Pattern}
    (hp : IsPatternOf g e p) (hps : ArePatternsOf g es ps) : ArePatternsOf g (e :: es) (p :: ps) := by
  obtain ⟨hread, body, hbody, hrests⟩ := hp
  obtain ⟨hreads, bodies, hbodies, hall⟩ := hps
  refine ⟨List.forall_mem_cons.mpr ⟨hread, hreads⟩, body :: bodies, .cons hbody hbodies, ?_⟩
  intro s
  simp only [Pattern.allRests, sequenceRests, hrests, funext hall]

theorem AreChoiceOf.nil : AreChoiceOf g [] [] :=
  ⟨fun _ hps => (List.not_mem_nil hps).elim, rfl, [], .nil, fun _ => rfl⟩

theorem AreChoiceOf.cons {es : List Element} {rest : List (List Element)} {ps : List Pattern}
    {choices : List (List Pattern)} (hps : ArePatternsOf g es ps) (hchoices : AreChoiceOf g rest choices) :
    AreChoiceOf g (es :: rest) (ps :: choices) := by
  obtain ⟨hread, body, hbody, hall⟩ := hps
  obtain ⟨hreads, hlength, bodies, hbodies, hrests⟩ := hchoices
  refine ⟨List.forall_mem_cons.mpr ⟨hread, hreads⟩, congrArg (· + 1) hlength, body :: bodies, .cons hbody hbodies,
    fun s => ?_⟩
  rw [List.flatMap_cons, choiceRests, hall, hrests]

/-- Alternatives in parentheses, of which there has to be one at least. -/
theorem AreChoiceOf.choiceGroup {alternatives : List (List Element)} {choices : List (List Pattern)}
    (h : AreChoiceOf g alternatives choices) (hne : alternatives ≠ []) :
    (choiceGroup choices).Readable false ∧
      ∃ body, InlinedChoice g alternatives body ∧ ∀ s, (choiceGroup choices).rests s = choiceRests body s := by
  obtain ⟨hread, hlength, body, hbody, hrests⟩ := h
  have hconcat : ∀ p ∈ choices.map Pattern.concat, p.Readable false := by
    intro p hp
    obtain ⟨ps, hps, rfl⟩ := List.mem_map.mp hp
    exact Pattern.readable_concat (hread ps hps)
  have hchoices : choices.map Pattern.concat ≠ [] := by
    intro hnil
    rw [List.map_eq_nil_iff] at hnil
    subst hnil
    exact hne (List.length_eq_zero_iff.mp hlength.symm)
  refine ⟨Pattern.readable_choice hconcat, body, hbody, ?_⟩
  intro s
  rw [← hrests]
  change (Pattern.choice (choices.map Pattern.concat)).rests s = _
  rw [Pattern.rests_choice hchoices, List.flatMap_map]
  simp only [Pattern.rests_concat]

/-! ## Expansion -/

/-- Whether only right patterns have been kept. -/
def Right (g : Grammar) (found : Found) : Prop := ∀ name p, (name, p) ∈ found → IsPatternOfRule g name p

theorem Right.lookup {found : Found} (h : Right g found) {name : String} {p : Pattern}
    (hp : found.lookup name = some p) : IsPatternOfRule g name p := by
  obtain ⟨before, after, rfl, -⟩ := List.lookup_eq_some_iff.mp hp
  exact h name p (List.mem_append_right _ List.mem_cons_self)

theorem Right.cons {found : Found} (h : Right g found) {name : String} {p : Pattern} (hp : IsPatternOfRule g name p) :
    Right g ((name, p) :: found) := by
  intro other q hq
  rcases List.mem_cons.mp hq with heq | hq
  · cases heq
    exact hp
  · exact h other q hq

/-- Entering a rule: what has been found before, or the choice among its alternatives, which is kept. -/
theorem keeps_findRule_of_alternatives (hg : g.RulesWellFormed) {path : List String} {name : String}
    (ih : name ∉ path → ∀ rule, g.rule? name = some rule → ChoiceWellFormed rule.alternatives →
      Keeps (Right g) (findAlternatives g (name :: path) rule.alternatives) (AreChoiceOf g rule.alternatives)) :
    Keeps (Right g) (findRule g path name) (IsPatternOfRule g name) := by
  rw [findRule]
  refine (keeps_found? (Q := fun found => ∀ p, found = some p → IsPatternOfRule g name p)
    fun found hfound p hp => hfound.lookup hp).bind fun found hfound => ?_
  cases found with
  | some p => exact keeps_pure (hfound p rfl)
  | none =>
    dsimp only
    split
    · exact keeps_throw _
    · next hpath =>
      split
      · exact keeps_throw _
      · next rule hrule =>
        have hwf := hg rule (List.mem_of_find?_eq_some hrule)
        refine (ih hpath rule hrule hwf.alternatives).bind fun choices hchoices => ?_
        obtain ⟨hread, body, hbody, hrests⟩ := hchoices.choiceGroup hwf.alternatives_ne_nil
        have hright : IsPatternOfRule g name (choiceGroup choices) := ⟨hread, rule, body, hrule, hbody, hrests⟩
        exact (keeps_keep fun found hfound => hfound.cons hright).bind fun _ _ => keeps_pure hright

/-- Expansion makes right patterns and keeps only right ones. -/
theorem keeps_find (hg : g.RulesWellFormed) :
    (∀ path name, Keeps (Right g) (findRule g path name) (IsPatternOfRule g name)) ∧
    (∀ path alternatives, ChoiceWellFormed alternatives →
      Keeps (Right g) (findAlternatives g path alternatives) (AreChoiceOf g alternatives)) ∧
    (∀ path es, SequenceWellFormed es → Keeps (Right g) (findSequence g path es) (ArePatternsOf g es)) ∧
    ∀ path (e : Element), e.WellFormed → Keeps (Right g) (findElement g path e) (IsPatternOf g e) := by
  refine findRule.mutual_induct g _ _ _ _ ?rule ?alternativesNil ?alternativesCons ?sequenceNil ?sequenceCons ?literal ?set
    ?any ?reference ?group ?repeated
  case rule => exact fun path name ih => keeps_findRule_of_alternatives hg ih
  case alternativesNil =>
    intro path _
    rw [findAlternatives]
    exact keeps_pure .nil
  case alternativesCons =>
    intro path es rest ihes ihrest hwf
    rw [findAlternatives]
    refine (ihes hwf.1).bind fun ps hps => ?_
    refine (ihrest hwf.2).bind fun choices hchoices => ?_
    exact keeps_pure (AreChoiceOf.cons hps hchoices)
  case sequenceNil =>
    intro path _
    rw [findSequence]
    exact keeps_pure .nil
  case sequenceCons =>
    intro path e rest ihe ihrest hwf
    rw [findSequence]
    refine (ihe hwf.1).bind fun p hp => ?_
    refine (ihrest hwf.2).bind fun ps hps => ?_
    exact keeps_pure (ArePatternsOf.cons hp hps)
  case literal =>
    intro path text _
    rw [findElement]
    exact keeps_pure ⟨trivial, _, .literal text, fun s => rfl⟩
  case set =>
    intro path negated items hwf
    rw [findElement]
    exact keeps_pure ⟨hwf, _, .set negated items, fun s => rfl⟩
  case any =>
    intro path _
    rw [findElement]
    exact keeps_pure ⟨trivial, _, .any, fun s => rfl⟩
  case reference =>
    intro path name ih _
    rw [findElement]
    intro found hfound
    obtain ⟨hafter, hresult⟩ := ih found hfound
    refine ⟨hafter, ?_⟩
    intro p hp
    obtain ⟨hread, rule, body, hrule, hbody, hrests⟩ := hresult p hp
    exact ⟨hread, _, .reference hrule hbody, hrests⟩
  case group =>
    intro path alternatives ih hwf
    rw [findElement]
    refine (ih hwf.2).bind fun choices hchoices => ?_
    obtain ⟨hread, body, hbody, hrests⟩ := hchoices.choiceGroup hwf.1
    exact keeps_pure ⟨hread, _, .group hbody, hrests⟩
  case repeated =>
    intro path quantifier greedy e ih hwf
    rw [findElement]
    refine (ih hwf.2).bind fun p hp => ?_
    obtain ⟨hread, body, hbody, hrests⟩ := hp
    refine keeps_pure ⟨hread.enclosed, _, .repeated quantifier greedy hbody, fun s => ?_⟩
    rw [Pattern.rests, Element.rests, funext hrests]

/-! ## Compiled rules -/

/-- What can have been found when rules have been compiled one after the other, successfully or not. -/
inductive Compiled (g : Grammar) : Found → Prop
  | start : Compiled g []
  | compile {found : Found} (h : Compiled g found) (name : String) : Compiled g ((findRule g [] name).run found).2

theorem Compiled.right (hg : g.RulesWellFormed) {found : Found} (h : Compiled g found) : Right g found := by
  induction h with
  | start => exact fun name p hp => by cases hp
  | compile _ name ih => exact ((keeps_find hg).1 [] name _ ih).1

/-- The text of the pattern that a rule is compiled to can be read, and means what the rule means: it finds the texts that
the body of the rule describes when all references in it have been replaced, in the order of the alternatives and
repeats there. -/
theorem exists_read_of_findRule {source : String} {g : Grammar} (hg : parse source = .ok g) {found : Found}
    (hfound : Compiled g found) {name : String} {p : Pattern} (h : ((findRule g [] name).run found).1 = .ok p) :
    ∃ rule body e, g.rule? name = some rule ∧
      InlinedChoice g rule.alternatives body ∧ (∀ other, InlinedChoice g rule.alternatives other → other = body) ∧
      Pattern.read p.text = some e ∧ (∀ s, e.rests s = choiceRests body s) ∧ Finds e.rests (ChoiceDescribes body) := by
  have hwf := rulesWellFormed_of_parse hg
  obtain ⟨hread, rule, body, hrule, hbody, hrests⟩ := ((keeps_find hwf).1 [] name found (hfound.right hwf)).2 p h
  obtain ⟨e, he, herests⟩ := Pattern.exists_read_text hread.enclosed
  have horder (s : List Char) : e.rests s = choiceRests body s := (herests s).trans (hrests s)
  refine ⟨rule, body, e, hrule, hbody, fun other hother => hother.unique hbody, he, horder, ?_⟩
  rw [funext horder]
  exact finds_choiceRests body

/-- A rule with every kind of element, compiled after the rule that it refers to. -/
theorem exists_read_of_findRule_all :
    ∃ g found p, parse "lexer grammar G; A : 'ab'+? ~[a-c\\n] | (B | .)* ; fragment B : [0-9] ('x' | ) ;" = .ok g ∧
      Compiled g found ∧ ((findRule g [] "A").run found).1 = .ok p ∧
      ∃ rule body e, g.rule? "A" = some rule ∧
        InlinedChoice g rule.alternatives body ∧ (∀ other, InlinedChoice g rule.alternatives other → other = body) ∧
        Pattern.read p.text = some e ∧ (∀ s, e.rests s = choiceRests body s) ∧
        Finds e.rests (ChoiceDescribes body) := by
  have hok : (match parse "lexer grammar G; A : 'ab'+? ~[a-c\\n] | (B | .)* ; fragment B : [0-9] ('x' | ) ;" with
    | .ok g => ((findRule g [] "A").run ((findRule g [] "B").run []).2).1.isOk
    | .error _ => false) = true := by decide +kernel
  split at hok
  · next g hg =>
    have hcompiled : Compiled g ((findRule g [] "B").run []).2 := .compile .start "B"
    cases hp : ((findRule g [] "A").run ((findRule g [] "B").run []).2).1 with
    | error e =>
      rw [hp] at hok
      cases hok
    | ok p => exact ⟨g, _, p, hg, hcompiled, hp, exists_read_of_findRule hg hcompiled hp⟩
  · cases hok

end Lexeme.Grammar
