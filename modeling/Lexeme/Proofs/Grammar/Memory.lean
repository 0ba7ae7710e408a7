import Lexeme.Proofs.Grammar.References

/-!
# What a memory does not change

Rules are compiled with a memory of the patterns that have been found. It changes nothing: whichever rules have been
compiled before, with success or not, a rule has the pattern or the error that it has without a memory
(`findRule_run_fst`). The reason is that a rule is kept only when its expansion has ended. So none of the rules that are
being expanded is in the memory (`Open`), and what is in the memory is what expansion gives on every such path
(`Sound`), on the path of the moment, too.

A pattern is lazy if a lazy repeat stands in the body of its rule, or in that of a rule to which references lead from
there (`isLazy_expand`).
-/

namespace Lexeme

namespace Grammar

variable {α β : Type} {g : Grammar} {found after : Found} {path : List String}

/-! ## Memories -/

/-- Whether none of the rules on a path has been found. -/
def Open (found : Found) (path : List String) : Prop := ∀ name ∈ path, found.lookup name = none

/-- Whether an expansion gives a value wherever no rule that has been found is being expanded. -/
def Gives (found : Found) (expand : List String → Except Error α) (a : α) : Prop :=
  ∀ path, Open found path → expand path = .ok a

/-- Whether each pattern that has been found is the one that expansion gives. -/
def Sound (g : Grammar) (found : Found) : Prop :=
  ∀ name p, found.lookup name = some p → Gives found (expandRule g · name) p

/-- Whether nothing that has been found is forgotten. -/
def Extends (found after : Found) : Prop := ∀ name, after.lookup name = none → found.lookup name = none

theorem Extends.trans {between : Found} (h : Extends found between) (h' : Extends between after) : Extends found after :=
  fun name hname => h name (h' name hname)

theorem Open.of_extends (h : Open after path) (hextends : Extends found after) : Open found path :=
  fun name hname => hextends name (h name hname)

theorem Open.cons {name : String} (h : Open found path) (hname : found.lookup name = none) : Open found (name :: path) :=
  List.forall_mem_cons.mpr ⟨hname, h⟩

theorem Gives.of_extends {expand : List String → Except Error α} {a : α} (h : Gives found expand a)
    (hextends : Extends found after) : Gives after expand a :=
  fun path hpath => h path (hpath.of_extends hextends)

theorem lookup_cons (name other : String) (p : Pattern) (found : Found) :
    List.lookup other ((name, p) :: found) = if other = name then some p else List.lookup other found := by
  rw [List.lookup_cons]
  by_cases h : other = name
  · simp [h]
  · simp [h, beq_false_of_ne h]

theorem extends_cons (name : String) (p : Pattern) (found : Found) : Extends found ((name, p) :: found) := by
  intro other h
  rw [lookup_cons] at h
  split at h
  · cases h
  · exact h

theorem sound_nil : Sound g [] := nofun

/-! ## Work with a memory and without -/

/-- What work with a memory has in common with an expansion without one, when `r` is its result and the memory after
it. -/
structure Mirrored (g : Grammar) (path : List String) (expand : List String → Except Error α) (found : Found)
    (r : Except Error α × Found) : Prop where
  sound : Sound g r.2
  open_path : Open r.2 path
  extends_found : Extends found r.2
  gives_of_ok : ∀ a, r.1 = .ok a → Gives r.2 expand a
  eq_of_error : ∀ e, r.1 = .error e → expand path = .error e

/-- Whether work with a memory, on a path, does the same as an expansion without one, from each sound memory in which no
rule on the path has been found. -/
def Mirrors (g : Grammar) (path : List String) (x : Expander α) (expand : List String → Except Error α) : Prop :=
  ∀ found, Sound g found → Open found path → Mirrored g path expand found (x.run found)

theorem Mirrored.eq {expand : List String → Except Error α} {r : Except Error α × Found}
    (h : Mirrored g path expand found r) : r.1 = expand path := by
  cases hr : r.1 with
  | ok a => exact (h.gives_of_ok a hr path h.open_path).symm
  | error e => exact (h.eq_of_error e hr).symm

theorem mirrors_pure (a : α) : Mirrors g path (pure a) fun _ => .ok a := by
  intro found hsound hopen
  refine ⟨hsound, hopen, fun _ h => h, fun b hb => ?_, nofun⟩
  cases hb
  exact fun _ _ => rfl

theorem Mirrors.bind {x : Expander α} {f : α → Expander β} {expand : List String → Except Error α}
    {next : α → List String → Except Error β} (hx : Mirrors g path x expand) (hf : ∀ a, Mirrors g path (f a) (next a)) :
    Mirrors g path (x >>= f) fun path => expand path >>= fun a => next a path := by
  intro found hsound hopen
  have hfirst := hx found hsound hopen
  rw [bind_run]
  rcases hrun : (x.run found : Except Error α × Found) with ⟨e | a, between⟩
  · rw [hrun] at hfirst
    refine ⟨hfirst.sound, hfirst.open_path, hfirst.extends_found, nofun, fun e' he' => ?_⟩
    cases he'
    rw [hfirst.eq_of_error e rfl]
    rfl
  · rw [hrun] at hfirst
    have hsecond := hf a between hfirst.sound hfirst.open_path
    refine ⟨hsecond.sound, hsecond.open_path, hfirst.extends_found.trans hsecond.extends_found, ?_, ?_⟩
    · intro b hb path hpath
      dsimp only
      rw [hfirst.gives_of_ok a rfl path (hpath.of_extends hsecond.extends_found)]
      exact hsecond.gives_of_ok b hb path hpath
    · intro e he
      rw [hfirst.gives_of_ok a rfl path hfirst.open_path]
      exact hsecond.eq_of_error e he

theorem found?_run (name : String) (found : Found) : (found? name).run found = (.ok (found.lookup name), found) := rfl

theorem expandRule_of_mem {name : String} (hpath : name ∈ path) :
    expandRule g path name = .error (recursion path name) := by
  rw [expandRule, dif_pos hpath]

theorem expandRule_of_none {name : String} (hpath : name ∉ path) (hnone : g.rule? name = none) :
    expandRule g path name = .error (undefined path name) := by
  rw [expandRule, dif_neg hpath]
  split
  · rfl
  · next hrule => cases hnone.symm.trans hrule

theorem expandRule_of_rule? {name : String} {rule : Rule} (hpath : name ∉ path) (hrule : g.rule? name = some rule) :
    expandRule g path name = expandAlternatives g (name :: path) rule.alternatives >>= fun choices =>
      .ok (choiceGroup choices) := by
  rw [expandRule, dif_neg hpath]
  split
  · next h => cases h.symm.trans hrule
  · next h =>
    cases h.symm.trans hrule
    rfl

/-- A rule is kept when the patterns of its alternatives have been found. What is kept is what expansion gives on the paths
that the rule is not on. -/
theorem Mirrored.keep {name : String} {rule : Rule} {choices : List (List Pattern)}
    (hrule : g.rule? name = some rule) (hnot : name ∉ path)
    (h : Mirrored g (name :: path) (expandAlternatives g · rule.alternatives) found (.ok choices, after)) :
    Mirrored g path (expandRule g · name) found (.ok (choiceGroup choices), (name, choiceGroup choices) :: after) := by
  have hextends := extends_cons name (choiceGroup choices) after
  obtain ⟨hnone, hopen⟩ := List.forall_mem_cons.mp h.open_path
  have hgives : Gives ((name, choiceGroup choices) :: after) (expandRule g · name) (choiceGroup choices) := by
    intro other hother
    have hnotMem : name ∉ other := by
      intro hmem
      have hlookup := hother name hmem
      rw [lookup_cons, if_pos rfl] at hlookup
      cases hlookup
    have hbody : expandAlternatives g (name :: other) rule.alternatives = .ok choices :=
      h.gives_of_ok choices rfl _ ((hother.of_extends hextends).cons hnone)
    dsimp only
    rw [expandRule_of_rule? hnotMem hrule, hbody]
    rfl
  refine ⟨?_, ?_, h.extends_found.trans hextends, fun p hp => ?_, nofun⟩
  · intro other p hp
    rw [lookup_cons] at hp
    split at hp
    · next heq =>
      cases hp
      rw [heq]
      exact hgives
    · exact (h.sound other p hp).of_extends hextends
  · intro other hother
    have hne : other ≠ name := by
      rintro rfl
      exact hnot hother
    rw [lookup_cons, if_neg hne]
    exact hopen other hother
  · cases hp
    exact hgives

/-- Finding a rule that has been found before, or else by its alternatives. -/
theorem mirrors_findRule_of_alternatives {name : String}
    (ih : name ∉ path → ∀ rule, g.rule? name = some rule →
      Mirrors g (name :: path) (findAlternatives g (name :: path) rule.alternatives)
        (expandAlternatives g · rule.alternatives)) :
    Mirrors g path (findRule g path name) (expandRule g · name) := by
  intro found hsound hopen
  rw [findRule, bind_run, found?_run]
  dsimp only
  cases hlookup : found.lookup name with
  | some p =>
    refine ⟨hsound, hopen, fun _ h => h, fun _ hq => ?_, fun _ he => ?_⟩
    · cases hq
      exact hsound name p hlookup
    · cases he
  | none =>
    dsimp only
    split
    · next hpath =>
      refine ⟨hsound, hopen, fun _ h => h, fun _ h => (by cases h), fun e he => ?_⟩
      cases he
      exact expandRule_of_mem hpath
    · next hpath =>
      split
      · next hnone =>
        refine ⟨hsound, hopen, fun _ h => h, fun _ h => (by cases h), fun e he => ?_⟩
        cases he
        exact expandRule_of_none hpath hnone
      · next rule hrule =>
        have hbody := ih hpath rule hrule found hsound (hopen.cons hlookup)
        rw [bind_run]
        rcases hrun : ((findAlternatives g (name :: path) rule.alternatives).run found : Except Error _ × Found) with
          ⟨e | choices, after⟩
        · rw [hrun] at hbody
          refine ⟨hbody.sound, (List.forall_mem_cons.mp hbody.open_path).2, hbody.extends_found, fun _ h => (by cases h),
            fun e' he' => ?_⟩
          cases he'
          have herror : expandAlternatives g (name :: path) rule.alternatives = .error e := hbody.eq_of_error e rfl
          rw [expandRule_of_rule? hpath hrule, herror]
          rfl
        · rw [hrun] at hbody
          exact hbody.keep hrule hpath

/-- Expansion with a memory mirrors the expansion without. -/
theorem mirrors_find :
    (∀ path name, Mirrors g path (findRule g path name) (expandRule g · name)) ∧
    (∀ path alternatives, Mirrors g path (findAlternatives g path alternatives) (expandAlternatives g · alternatives)) ∧
    (∀ path es, Mirrors g path (findSequence g path es) (expandSequence g · es)) ∧
    ∀ path (e : Element), Mirrors g path (findElement g path e) (expandElement g · e) := by
  refine findRule.mutual_induct g _ _ _ _ ?rule ?alternativesNil ?alternativesCons ?sequenceNil ?sequenceCons ?literal ?set
    ?any ?reference ?group ?repeated
  case rule => exact fun path name ih => mirrors_findRule_of_alternatives ih
  case alternativesNil =>
    intro path
    simp only [findAlternatives, expandAlternatives]
    exact mirrors_pure _
  case alternativesCons =>
    intro path es rest ihes ihrest
    simp only [findAlternatives, expandAlternatives]
    exact ihes.bind fun ps => ihrest.bind fun choices => mirrors_pure _
  case sequenceNil =>
    intro path
    simp only [findSequence, expandSequence]
    exact mirrors_pure _
  case sequenceCons =>
    intro path e rest ihe ihrest
    simp only [findSequence, expandSequence]
    exact ihe.bind fun p => ihrest.bind fun ps => mirrors_pure _
  case literal =>
    intro path text
    simp only [findElement, expandElement]
    exact mirrors_pure _
  case set =>
    intro path negated items
    simp only [findElement, expandElement]
    exact mirrors_pure _
  case any =>
    intro path
    simp only [findElement, expandElement]
    exact mirrors_pure _
  case reference =>
    intro path name ih
    simp only [findElement, expandElement]
    exact ih
  case group =>
    intro path alternatives ih
    simp only [findElement, expandElement]
    exact ih.bind fun choices => mirrors_pure _
  case repeated =>
    intro path quantifier greedy e ih
    simp only [findElement, expandElement]
    exact ih.bind fun p => mirrors_pure _

theorem Compiled.sound (h : Compiled g found) : Sound g found := by
  induction h with
  | start => exact sound_nil
  | compile _ name ih => exact (mirrors_find.1 [] name _ ih (List.forall_mem_nil _)).sound

/-- Whatever has been compiled before, a rule is compiled to what it is expanded to. -/
theorem findRule_run_fst (hsound : Sound g found) (name : String) :
    ((findRule g [] name).run found).1 = expandRule g [] name :=
  (mirrors_find.1 [] name found hsound (List.forall_mem_nil _)).eq

end Grammar

/-! ## Lazy repeats -/

mutual

/-- Whether some repeat in an element takes as few copies as it can. -/
def Element.HasLazyRepeat : Element → Prop
  | .literal _ => False
  | .set _ _ => False
  | .any => False
  | .reference _ => False
  | .group alternatives => ChoiceHasLazyRepeat alternatives
  | .repeated _ greedy e => greedy = false ∨ e.HasLazyRepeat

/-- Whether some element of a sequence has a lazy repeat. -/
def SequenceHasLazyRepeat : List Element → Prop
  | [] => False
  | e :: rest => e.HasLazyRepeat ∨ SequenceHasLazyRepeat rest

/-- Whether some alternative has a lazy repeat. -/
def ChoiceHasLazyRepeat : List (List Element) → Prop
  | [] => False
  | es :: rest => SequenceHasLazyRepeat es ∨ ChoiceHasLazyRepeat rest

end

namespace Pattern

theorem isLazy_concat (ps : List Pattern) : (concat ps).isLazy = ps.any isLazy := by
  fun_induction concat ps with
  | case1 => rfl
  | case2 p => simp
  | case3 p ps _ ih => simp [isLazy, ih]

theorem isLazy_choice (ps : List Pattern) : (choice ps).isLazy = ps.any isLazy := by
  fun_induction choice ps with
  | case1 => rfl
  | case2 p => simp
  | case3 p ps _ ih => simp [isLazy, ih]

end Pattern

namespace Grammar

variable {g : Grammar} {path : List String}

theorem isLazy_choiceGroup (choices : List (List Pattern)) :
    (choiceGroup choices).isLazy = choices.any (·.any Pattern.isLazy) := by
  simp [choiceGroup, Pattern.isLazy, Pattern.isLazy_choice, List.any_map, Function.comp_def, Pattern.isLazy_concat]

/-- Whether the rule that a name stands for refers to another name. -/
def Uses (g : Grammar) (name other : String) : Prop :=
  ∃ rule, g.rule? name = some rule ∧ other ∈ choiceReferences rule.alternatives

/-- Whether references lead from a name to a rule with a lazy repeat. -/
def LeadsToLazyRepeat (g : Grammar) (name : String) : Prop :=
  ∃ other rule, Relation.ReflTransGen g.Uses name other ∧ g.rule? other = some rule ∧ ChoiceHasLazyRepeat rule.alternatives

/-- The lazy repeat is in the rule itself, or references lead to it from one of the names in its body. -/
theorem leadsToLazyRepeat_iff {name : String} {rule : Rule} (hrule : g.rule? name = some rule) :
    g.LeadsToLazyRepeat name ↔ ChoiceHasLazyRepeat rule.alternatives ∨
      ∃ other ∈ choiceReferences rule.alternatives, g.LeadsToLazyRepeat other := by
  constructor
  · rintro ⟨last, rule', hwalk, hlast, hlazy⟩
    rcases Relation.ReflTransGen.cases_head hwalk with rfl | ⟨other, ⟨rule'', hrule'', hother⟩, hwalk⟩
    · cases hrule.symm.trans hlast
      exact .inl hlazy
    · cases hrule.symm.trans hrule''
      exact .inr ⟨other, hother, last, rule', hwalk, hlast, hlazy⟩
  · rintro (hlazy | ⟨other, hother, last, rule', hwalk, hlast, hlazy⟩)
    · exact ⟨name, rule, .refl, hrule, hlazy⟩
    · exact ⟨last, rule', .head ⟨rule, hrule, hother⟩ hwalk, hlast, hlazy⟩

theorem bind_eq_ok_iff {α β : Type} {x : Except Error α} {f : α → Except Error β} {b : β} :
    x >>= f = .ok b ↔ ∃ a, x = .ok a ∧ f a = .ok b := by
  cases x with
  | error e => exact iff_of_false nofun nofun
  | ok a => exact ⟨fun h => ⟨a, rfl, h⟩, fun ⟨_, ha, h⟩ => by cases ha; exact h⟩

/-- A name occurs in the references of one part or of the other. -/
theorem exists_references_append {P : String → Prop} {names others : List String} :
    (∃ name ∈ names ++ others, P name) ↔ (∃ name ∈ names, P name) ∨ ∃ name ∈ others, P name := by
  simp only [List.mem_append, or_and_right, exists_or]

/-- Patterns are lazy as the bodies that they are made from, or as a rule that those refer to. -/
theorem isLazy_expand :
    (∀ path name p, expandRule g path name = .ok p → (p.isLazy = true ↔ g.LeadsToLazyRepeat name)) ∧
    (∀ path alternatives choices, expandAlternatives g path alternatives = .ok choices →
      (choices.any (·.any Pattern.isLazy) = true ↔
        ChoiceHasLazyRepeat alternatives ∨ ∃ name ∈ choiceReferences alternatives, g.LeadsToLazyRepeat name)) ∧
    (∀ path es ps, expandSequence g path es = .ok ps →
      (ps.any Pattern.isLazy = true ↔
        SequenceHasLazyRepeat es ∨ ∃ name ∈ sequenceReferences es, g.LeadsToLazyRepeat name)) ∧
    ∀ path (e : Element) p, expandElement g path e = .ok p →
      (p.isLazy = true ↔ e.HasLazyRepeat ∨ ∃ name ∈ e.references, g.LeadsToLazyRepeat name) := by
  refine expandRule.mutual_induct g _ _ _ _ ?recursive ?undefined ?rule ?alternativesNil ?alternativesCons ?sequenceNil
    ?sequenceCons ?literal ?set ?any ?reference ?group ?repeated
  case recursive =>
    intro path name hpath p h
    rw [expandRule_of_mem hpath] at h
    cases h
  case undefined =>
    intro path name hpath hnone p h
    rw [expandRule_of_none hpath hnone] at h
    cases h
  case rule =>
    intro path name hpath rule hrule ih p h
    rw [expandRule_of_rule? hpath hrule] at h
    obtain ⟨choices, hchoices, h⟩ := bind_eq_ok_iff.mp h
    cases h
    rw [isLazy_choiceGroup, ih choices hchoices, leadsToLazyRepeat_iff hrule]
  case alternativesNil =>
    intro path choices h
    rw [expandAlternatives] at h
    cases h
    simp [ChoiceHasLazyRepeat, choiceReferences]
  case alternativesCons =>
    intro path es rest ihes ihrest choices h
    rw [expandAlternatives] at h
    obtain ⟨ps, hps, h⟩ := bind_eq_ok_iff.mp h
    obtain ⟨others, hothers, h⟩ := bind_eq_ok_iff.mp h
    cases h
    rw [List.any_cons, Bool.or_eq_true, ihes ps hps, ihrest others hothers, ChoiceHasLazyRepeat, choiceReferences,
      exists_references_append, or_or_or_comm]
  case sequenceNil =>
    intro path ps h
    rw [expandSequence] at h
    cases h
    simp [SequenceHasLazyRepeat, sequenceReferences]
  case sequenceCons =>
    intro path e rest ihe ihrest ps h
    rw [expandSequence] at h
    obtain ⟨p, hp, h⟩ := bind_eq_ok_iff.mp h
    obtain ⟨others, hothers, h⟩ := bind_eq_ok_iff.mp h
    cases h
    rw [List.any_cons, Bool.or_eq_true, ihe p hp, ihrest others hothers, SequenceHasLazyRepeat, sequenceReferences,
      exists_references_append, or_or_or_comm]
  case literal =>
    intro path text p h
    rw [expandElement] at h
    cases h
    simp [Pattern.isLazy, Element.HasLazyRepeat, Element.references]
  case set =>
    intro path negated items p h
    rw [expandElement] at h
    cases h
    simp [Pattern.isLazy, Element.HasLazyRepeat, Element.references]
  case any =>
    intro path p h
    rw [expandElement] at h
    cases h
    simp [Pattern.isLazy, Element.HasLazyRepeat, Element.references]
  case reference =>
    intro path name ih p h
    rw [expandElement] at h
    rw [ih p h]
    simp [Element.HasLazyRepeat, Element.references]
  case group =>
    intro path alternatives ih p h
    rw [expandElement] at h
    obtain ⟨choices, hchoices, h⟩ := bind_eq_ok_iff.mp h
    cases h
    rw [isLazy_choiceGroup, ih choices hchoices, Element.HasLazyRepeat, Element.references]
  case repeated =>
    intro path quantifier greedy e ih p h
    rw [expandElement] at h
    obtain ⟨body, hbody, h⟩ := bind_eq_ok_iff.mp h
    cases h
    rw [Pattern.isLazy, Bool.or_eq_true, Bool.not_eq_true', ih body hbody, Element.HasLazyRepeat, Element.references,
      or_assoc]

/-! ## Compiled rules -/

/-- A lazy pattern is matched by its first match, and any other by its longest. -/
theorem goal_machine_eq_first_iff (p : Pattern) : p.machine.goal = .first ↔ p.isLazy = true := by
  unfold Pattern.machine
  cases p.isLazy <;> simp [Pattern.Program.machine]

/-- **A memory changes nothing.** Whichever rules have been compiled before, with success or not, a rule is compiled to the
pattern that its expansion from the beginning gives, or refused with the error that this gives. The pattern is lazy, so
that its first match counts and not its longest, exactly when a lazy repeat stands in the rule or in one that references
lead to. -/
theorem findRule_eq_expandRule {g : Grammar} {found : Found} (h : Compiled g found) (name : String) :
    ((findRule g [] name).run found).1 = expandRule g [] name ∧
      ∀ p, expandRule g [] name = .ok p →
        (p.isLazy = true ↔ ∃ other rule, Relation.ReflTransGen g.Uses name other ∧ g.rule? other = some rule ∧
          ChoiceHasLazyRepeat rule.alternatives) ∧
        (p.machine.goal = .first ↔ p.isLazy = true) :=
  ⟨findRule_run_fst h.sound name, fun p hp => ⟨isLazy_expand.1 [] name p hp, goal_machine_eq_first_iff p⟩⟩

/-- A rule is compiled after two that are refused. On the way to the first error a lazy rule has been kept, to which the
rule refers by way of another one. -/
theorem findRule_eq_expandRule_afterFailures :
    ∃ g found p, parse "lexer grammar G; A : B C ; B : 'b'*? ; C : A ; D : E 'd' ; fragment E : 'e' B ;" = .ok g ∧
      Compiled g found ∧ (found.lookup "B").isSome ∧
      ((findRule g [] "A").run found).1 = .error (.recursiveRule "A" "A -> C -> A") ∧
      expandRule g [] "A" = .error (.recursiveRule "A" "A -> C -> A") ∧
      ((findRule g [] "D").run found).1 = .ok p ∧ expandRule g [] "D" = .ok p ∧ p.machine.goal = .first := by
  have hok : (match parse "lexer grammar G; A : B C ; B : 'b'*? ; C : A ; D : E 'd' ; fragment E : 'e' B ;" with
    | .ok g =>
      let found := ((findRule g [] "F").run ((findRule g [] "A").run []).2).2
      (found.lookup "B").isSome && (match ((findRule g [] "A").run found).1 with
        | .error e => e = .recursiveRule "A" "A -> C -> A"
        | .ok _ => false) &&
      match ((findRule g [] "D").run found).1 with
        | .error _ => false
        | .ok p => p.isLazy
    | .error _ => false) = true := by decide +kernel
  split at hok
  · next g hg =>
    have hcompiled : Compiled g ((findRule g [] "F").run ((findRule g [] "A").run []).2).2 :=
      .compile (.compile .start "A") "F"
    obtain ⟨hok, hlazy⟩ := Bool.and_eq_true_iff.mp hok
    obtain ⟨hkept, herror⟩ := Bool.and_eq_true_iff.mp hok
    obtain ⟨hA, -⟩ := findRule_eq_expandRule hcompiled "A"
    obtain ⟨hD, hgoal⟩ := findRule_eq_expandRule hcompiled "D"
    split at herror
    · next e he =>
      obtain rfl := of_decide_eq_true herror
      split at hlazy
      · cases hlazy
      · next p hp =>
        exact ⟨g, _, p, hg, hcompiled, hkept, he, hA.symm.trans he, hp, hD.symm.trans hp,
          (hgoal p (hD.symm.trans hp)).2.mpr hlazy⟩
    · cases herror
  · cases hok

end Grammar

end Lexeme
