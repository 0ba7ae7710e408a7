import Lexeme.Proofs.Grammar.Expand
import Lexeme.Proofs.Grammar.Lexer
import Mathlib.Data.List.Chain
import Mathlib.Data.List.Nodup
import Mathlib.Logic.Relation

/-!
# References

A rule refers to the names in its body. Rules are expanded from the first to the last, fragments too, and what cannot be
expanded is refused: the references of a grammar are refused exactly when one of them leads nowhere or some lead round in
a circle, and the error says which (`lexer_checksReferences`).

The path of an expansion is a walk along references (`Reached`), so an error on the way tells of the references that
led to it (`fails_find`). Conversely, a rule that has been expanded has a body without references, and no walk along
references can go on for ever below it (`settled_of_inlined`). What has been found before is not expanded again, but it
is settled all the same.
-/

namespace Lexeme

mutual

/-- The names that an element refers to. -/
def Element.references : Element → List String
  | .literal _ => []
  | .set _ _ => []
  | .any => []
  | .reference name => [name]
  | .group alternatives => choiceReferences alternatives
  | .repeated _ _ e => e.references

/-- The names that the elements of a sequence refer to. -/
def sequenceReferences : List Element → List String
  | [] => []
  | e :: rest => e.references ++ sequenceReferences rest

/-- The names that alternatives refer to. -/
def choiceReferences : List (List Element) → List String
  | [] => []
  | es :: rest => sequenceReferences es ++ choiceReferences rest

end

namespace Grammar

/-! ## The graph of references -/

/-- Whether the body of the rule `name` refers to `other`. -/
def RefersTo (g : Grammar) (name other : String) : Prop :=
  ∃ rule ∈ g.rules, rule.name = name ∧ other ∈ choiceReferences rule.alternatives

/-- Whether a rule refers to a name that no rule has. -/
def HasDanglingReference (g : Grammar) : Prop :=
  ∃ name other, g.RefersTo name other ∧ ∀ rule ∈ g.rules, rule.name ≠ other

/-- Whether references lead from a rule back to itself. -/
def HasCycle (g : Grammar) : Prop := ∃ name, Relation.TransGen g.RefersTo name name

/-- Whether an error is about the references of a grammar. -/
def Error.IsAboutReferences : Error → Prop
  | .undefinedRule _ _ => True
  | .recursiveRule _ _ => True
  | _ => False

/-- Whether an error is about the references of a grammar, and what it says of them is so. A path of recursion is a walk
along references in which only the last name occurs twice. -/
def Error.IsTruthful (g : Grammar) : Error → Prop
  | .undefinedRule name reference => g.RefersTo name reference ∧ ∀ rule ∈ g.rules, rule.name ≠ reference
  | .recursiveRule name path =>
    ∃ walk, path = " -> ".intercalate (walk ++ [name]) ∧ (walk ++ [name]).IsChain g.RefersTo ∧ walk.Nodup ∧ name ∈ walk
  | _ => False

variable {g : Grammar}

theorem rule?_eq_none_iff {name : String} : g.rule? name = none ↔ ∀ rule ∈ g.rules, rule.name ≠ name := by
  simp [rule?]

/-- Where names are distinct, the rule of a name is the only one. -/
theorem rule?_eq_some_iff (hnodup : (g.rules.map Rule.name).Nodup) {name : String} {rule : Rule} :
    g.rule? name = some rule ↔ rule ∈ g.rules ∧ rule.name = name := by
  constructor
  · intro h
    exact ⟨List.mem_of_find?_eq_some h, by simpa using List.find?_some h⟩
  · rintro ⟨hmem, rfl⟩
    cases hfound : g.rule? rule.name with
    | none => exact absurd rfl (rule?_eq_none_iff.mp hfound rule hmem)
    | some other =>
      have hname : other.name = rule.name := by simpa using List.find?_some hfound
      rw [List.inj_on_of_nodup_map hnodup (List.mem_of_find?_eq_some hfound) hmem hname]

theorem refersTo_of_rule? {name other : String} {rule : Rule} (hrule : g.rule? name = some rule)
    (hother : other ∈ choiceReferences rule.alternatives) : g.RefersTo name other :=
  ⟨rule, List.mem_of_find?_eq_some hrule, by simpa using List.find?_some hrule, hother⟩

/-- What a truthful error says of the references is a reason to refuse them. -/
theorem Error.IsTruthful.dangling_or_cycle {e : Error} (h : e.IsTruthful g) : g.HasDanglingReference ∨ g.HasCycle := by
  cases e with
  | undefinedRule name reference => exact .inl ⟨name, reference, h⟩
  | recursiveRule name path =>
    obtain ⟨walk, -, hchain, -, hmem⟩ := h
    have hpairwise := (hchain.imp fun _ _ => Relation.TransGen.single).pairwise
    exact .inr ⟨name, (List.pairwise_append.mp hpairwise).2.2 name hmem name (List.mem_singleton_self name)⟩
  | malformed => exact h.elim
  | unknownChannel => exact h.elim
  | invalidPattern => exact h.elim
  | unsupported => exact h.elim
  | tooManyRules => exact h.elim

theorem Error.IsTruthful.isAboutReferences {e : Error} (h : e.IsTruthful g) : e.IsAboutReferences := by
  cases e <;> trivial

/-! ## Errors -/

/-- Whether work fails only with errors that satisfy `E`, whatever has been found before. -/
def FailsWith {α : Type} (E : Error → Prop) (x : Expander α) : Prop := ∀ found e, (x.run found).1 = .error e → E e

section FailsWith

variable {α β : Type} {E : Error → Prop}

theorem failsWith_pure (a : α) : FailsWith E (pure a) := by
  intro found e h
  cases h

theorem failsWith_throw {e : Error} (he : E e) : FailsWith E (throw e : Expander α) := by
  intro found e' h
  cases h
  exact he

theorem FailsWith.bind {x : Expander α} {f : α → Expander β} (hx : FailsWith E x) (hf : ∀ a, FailsWith E (f a)) :
    FailsWith E (x >>= f) := by
  intro found e h
  rw [bind_run] at h
  rcases hrun : (x.run found : Except Error α × Found) with ⟨e' | a, between⟩
  · rw [hrun] at h
    cases h
    exact hx found e (congrArg Prod.fst hrun)
  · rw [hrun] at h
    exact hf a between e h

theorem failsWith_found? (name : String) : FailsWith E (found? name) := by
  intro found e h
  cases h

theorem failsWith_keep (name : String) (pattern : Pattern) : FailsWith E (keep name pattern) := by
  intro found e h
  cases h

theorem failsWith_mapM {f : α → Expander β} {as : List α} (h : ∀ a ∈ as, FailsWith E (f a)) :
    FailsWith E (as.mapM f) := by
  induction as with
  | nil =>
    rw [List.mapM_nil]
    exact failsWith_pure _
  | cons a as ih =>
    obtain ⟨ha, has⟩ := List.forall_mem_cons.mp h
    rw [List.mapM_cons]
    exact ha.bind fun b => (ih has).bind fun bs => failsWith_pure _

end FailsWith

/-! ## Walks -/

/-- Whether an expansion can have reached a name: its path is a walk along references to the name that repeats nothing,
and begins with a rule. -/
structure Reached (g : Grammar) (path : List String) (name : String) : Prop where
  chain : (name :: path).IsChain fun a b => g.RefersTo b a
  nodup : path.Nodup
  rule_of_nil : path = [] → g.rule? name ≠ none

theorem reached_nil {name : String} (h : g.rule? name ≠ none) : Reached g [] name :=
  ⟨.singleton _, .nil, fun _ => h⟩

/-- Expansion goes on from a rule to the names in its body. -/
theorem Reached.cons {path : List String} {name other : String} (h : Reached g path name) (hpath : name ∉ path)
    (hrefers : g.RefersTo name other) : Reached g (name :: path) other :=
  ⟨.cons_cons hrefers h.chain, List.nodup_cons.mpr ⟨hpath, h.nodup⟩, fun hnil => by cases hnil⟩

theorem Reached.isTruthful_recursion {path : List String} {name : String} (h : Reached g path name) (hpath : name ∈ path) :
    (recursion path name).IsTruthful g := by
  refine ⟨path.reverse, ?_, ?_, List.nodup_reverse.mpr h.nodup, List.mem_reverse.mpr hpath⟩
  · rw [List.reverse_cons]
  · rw [← List.reverse_cons]
    exact List.isChain_reverse.mpr h.chain

theorem Reached.isTruthful_undefined {path : List String} {name : String} (h : Reached g path name)
    (hnone : g.rule? name = none) : (undefined path name).IsTruthful g := by
  cases path with
  | nil => exact absurd hnone (h.rule_of_nil rfl)
  | cons last path => exact ⟨(List.isChain_cons_cons.mp h.chain).1, rule?_eq_none_iff.mp hnone⟩

/-- Expansion fails only for references that are wrong. -/
theorem fails_find :
    (∀ path name, Reached g path name → FailsWith (Error.IsTruthful g) (findRule g path name)) ∧
    (∀ path alternatives, (∀ name ∈ choiceReferences alternatives, Reached g path name) →
      FailsWith (Error.IsTruthful g) (findAlternatives g path alternatives)) ∧
    (∀ path es, (∀ name ∈ sequenceReferences es, Reached g path name) →
      FailsWith (Error.IsTruthful g) (findSequence g path es)) ∧
    ∀ path (e : Element), (∀ name ∈ e.references, Reached g path name) →
      FailsWith (Error.IsTruthful g) (findElement g path e) := by
  refine findRule.mutual_induct g _ _ _ _ ?rule ?alternativesNil ?alternativesCons ?sequenceNil ?sequenceCons ?literal ?set
    ?any ?reference ?group ?repeated
  case rule =>
    intro path name ih hreached
    rw [findRule]
    refine (failsWith_found? name).bind fun found => ?_
    cases found with
    | some p => exact failsWith_pure p
    | none =>
      dsimp only
      split
      · next hpath => exact failsWith_throw (hreached.isTruthful_recursion hpath)
      · next hpath =>
        split
        · next hnone => exact failsWith_throw (hreached.isTruthful_undefined hnone)
        · next rule hrule =>
          have hbody : ∀ other ∈ choiceReferences rule.alternatives, Reached g (name :: path) other :=
            fun other hother => hreached.cons hpath (refersTo_of_rule? hrule hother)
          refine (ih hpath rule hrule hbody).bind fun choices => ?_
          exact (failsWith_keep _ _).bind fun _ => failsWith_pure _
  case alternativesNil =>
    intro path _
    rw [findAlternatives]
    exact failsWith_pure _
  case alternativesCons =>
    intro path es rest ihes ihrest h
    obtain ⟨hes, hrest⟩ := List.forall_mem_append.mp h
    rw [findAlternatives]
    exact (ihes hes).bind fun ps => (ihrest hrest).bind fun choices => failsWith_pure _
  case sequenceNil =>
    intro path _
    rw [findSequence]
    exact failsWith_pure _
  case sequenceCons =>
    intro path e rest ihe ihrest h
    obtain ⟨he, hrest⟩ := List.forall_mem_append.mp h
    rw [findSequence]
    exact (ihe he).bind fun p => (ihrest hrest).bind fun ps => failsWith_pure _
  case literal =>
    intro path text _
    rw [findElement]
    exact failsWith_pure _
  case set =>
    intro path negated items _
    rw [findElement]
    exact failsWith_pure _
  case any =>
    intro path _
    rw [findElement]
    exact failsWith_pure _
  case reference =>
    intro path name ih h
    rw [findElement]
    exact ih (h name List.mem_cons_self)
  case group =>
    intro path alternatives ih h
    rw [findElement]
    exact (ih h).bind fun choices => failsWith_pure _
  case repeated =>
    intro path quantifier greedy e ih h
    rw [findElement]
    exact (ih h).bind fun p => failsWith_pure _

/-- The patterns of a grammar fail only for references that are wrong. -/
theorem isTruthful_of_patterns {e : Error} (h : g.patterns = .error e) : e.IsTruthful g := by
  refine failsWith_mapM (fun rule hrule => ?_) [] e h
  have hreached : Reached g [] rule.name := reached_nil fun hnone => rule?_eq_none_iff.mp hnone rule hrule rfl
  exact (fails_find.1 [] rule.name hreached).bind fun pattern => failsWith_pure _

/-! ## Bodies without references -/

/-- Whether a name is that of a rule, and no walk along references from it goes on for ever. -/
def Settled (g : Grammar) (name : String) : Prop :=
  (∃ rule ∈ g.rules, rule.name = name) ∧ Acc (fun a b => g.RefersTo b a) name

/-- A rule is settled when all that it refers to is. -/
theorem settled_of_rule? (hnodup : (g.rules.map Rule.name).Nodup) {name : String} {rule : Rule}
    (hrule : g.rule? name = some rule) (h : ∀ other ∈ choiceReferences rule.alternatives, Settled g other) :
    Settled g name := by
  obtain ⟨hmem, hname⟩ := (rule?_eq_some_iff hnodup).mp hrule
  refine ⟨⟨rule, hmem, hname⟩, .intro name fun other hrefers => ?_⟩
  obtain ⟨rule', hmem', hname', hother⟩ := hrefers
  obtain rfl : rule = rule' := Option.some.inj (hrule.symm.trans ((rule?_eq_some_iff hnodup).mpr ⟨hmem', hname'⟩))
  exact (h other hother).2

mutual

/-- What an element refers to is settled if all references in it can be replaced. -/
theorem settled_of_inlined (hnodup : (g.rules.map Rule.name).Nodup) : ∀ {e body : Element}, Inlined g e body →
    ∀ name ∈ e.references, Settled g name
  | _, _, .literal _, _, h => by cases h
  | _, _, .set _ _, _, h => by cases h
  | _, _, .any, _, h => by cases h
  | _, _, .reference hrule hbody, _, h => by
    obtain rfl := List.mem_singleton.mp h
    exact settled_of_rule? hnodup hrule (settled_of_inlinedChoice hnodup hbody)
  | _, _, .group hbody, _, h => settled_of_inlinedChoice hnodup hbody _ h
  | _, _, .repeated _ _ hbody, _, h => settled_of_inlined hnodup hbody _ h

theorem settled_of_inlinedSequence (hnodup : (g.rules.map Rule.name).Nodup) : ∀ {es bodies : List Element},
    InlinedSequence g es bodies → ∀ name ∈ sequenceReferences es, Settled g name
  | _, _, .nil, _, h => by cases h
  | _, _, .cons he hes, _, h =>
    (List.mem_append.mp h).elim (settled_of_inlined hnodup he _) (settled_of_inlinedSequence hnodup hes _)

theorem settled_of_inlinedChoice (hnodup : (g.rules.map Rule.name).Nodup) : ∀ {alternatives bodies : List (List Element)},
    InlinedChoice g alternatives bodies → ∀ name ∈ choiceReferences alternatives, Settled g name
  | _, _, .nil, _, h => by cases h
  | _, _, .cons hes hrest, _, h =>
    (List.mem_append.mp h).elim (settled_of_inlinedSequence hnodup hes _) (settled_of_inlinedChoice hnodup hrest _)

end

/-- Where no walk goes on for ever, none comes back. -/
theorem not_transGen_of_acc {name : String} (h : Acc (fun a b => g.RefersTo b a) name) :
    ¬Relation.TransGen g.RefersTo name name := by
  induction h with
  | intro name _ ih =>
    intro hcycle
    obtain ⟨other, hother, hback⟩ := Relation.TransGen.head'_iff.mp hcycle
    -- the circle can also be entered at the next name
    exact ih other hother (.tail' hback hother)

/-- Each rule of a grammar with patterns has a body without references. -/
theorem exists_inlined_of_patterns (hg : g.RulesWellFormed) {patterns : List (Rule × Pattern)}
    (h : g.patterns = .ok patterns) :
    ∀ rule ∈ g.rules, ∃ found body, g.rule? rule.name = some found ∧ InlinedChoice g found.alternatives body := by
  intro rule hrule
  have hkeeps (rule : Rule) : Keeps (Right g) (do return (rule, ← findRule g [] rule.name) : Expander (Rule × Pattern))
      fun r => IsPatternOfRule g rule.name r.2 :=
    ((keeps_find hg).1 [] rule.name).bind fun pattern hpattern => keeps_pure hpattern
  obtain ⟨r, -, hr⟩ := (runAll_of_mapM (Prod.ext h rfl)).exists_of_mem hkeeps (fun _ _ h => by cases h) rule hrule
  obtain ⟨-, found, body, hfound, hbody, -⟩ := hr
  exact ⟨found, body, hfound, hbody⟩

/-- Whether all references in all rules can be replaced. -/
def CanBeInlined (g : Grammar) : Prop := ∀ rule ∈ g.rules, ∃ body, InlinedChoice g rule.alternatives body

/-- Where all references can be replaced, none is wrong. -/
theorem CanBeInlined.not_dangling_or_cycle (h : g.CanBeInlined) (hnodup : (g.rules.map Rule.name).Nodup) :
    ¬(g.HasDanglingReference ∨ g.HasCycle) := by
  have hsettled {name other : String} (hrefers : g.RefersTo name other) : Settled g other := by
    obtain ⟨rule, hrule, -, hother⟩ := hrefers
    obtain ⟨body, hbody⟩ := h rule hrule
    exact settled_of_inlinedChoice hnodup hbody other hother
  rintro (⟨name, other, hrefers, hnone⟩ | ⟨name, hcycle⟩)
  · obtain ⟨rule, hrule, hname⟩ := (hsettled hrefers).1
    exact hnone rule hrule hname
  · obtain ⟨other, -, hrefers⟩ := Relation.TransGen.tail'_iff.mp hcycle
    exact not_transGen_of_acc (hsettled hrefers).2 hcycle

/-! ## Lexers -/

/-- The lexer of a grammar that is not too large fails for the references exactly as its patterns do. -/
theorem lexer_run_eq_error_iff (hcount : g.implicitLiterals.length + g.rules.length ≤ ruleLimit) {log : Log} {e : Error}
    (he : e.IsAboutReferences) : (g.lexer.run log).1 = .error e ↔ g.patterns = .error e := by
  unfold Grammar.lexer Grammar.matchers
  dsimp only
  rw [if_neg (Nat.not_lt.mpr hcount)]
  cases g.patterns with
  | error e' => exact ⟨fun h => by cases h; rfl, fun h => by cases h; rfl⟩
  | ok patterns =>
    refine iff_of_false (fun h => ?_) nofun
    -- a grammar whose references are replaced is refused for its patterns only
    change ((g.assemble _).run log).1 = .error e at h
    rw [assemble_run_fst] at h
    split at h
    · next hrefused =>
      cases h
      obtain ⟨m, -, hm⟩ := List.exists_of_findSome?_eq_some hrefused
      obtain ⟨reason, -, rfl⟩ := Option.map_eq_some_iff.mp hm
      exact he
    · split at h
      · cases h
        exact he
      · cases h

/-- What it means that a grammar's references are checked before there is a lexer. -/
structure ChecksReferences (g : Grammar) (result : Except Error Lexer) : Prop where
  /-- The references are refused exactly when one of them leads nowhere or some lead round in a circle. -/
  refused_iff : (∃ e, result = .error e ∧ e.IsAboutReferences) ↔ g.HasDanglingReference ∨ g.HasCycle
  /-- Replacing the references comes to an end: in all rules, also in those that no rule refers to, or else with an
  error. -/
  inlined_or_refused : g.CanBeInlined ∨ ∃ e, result = .error e ∧ e.IsAboutReferences
  /-- A rule refers to the name that is said to be undefined, and no rule has it. -/
  undefined : ∀ name reference, result = .error (.undefinedRule name reference) →
    g.RefersTo name reference ∧ ∀ rule ∈ g.rules, rule.name ≠ reference
  /-- The path of a recursion is a walk along references, in which only the last name occurs twice. -/
  recursive : ∀ name path, result = .error (.recursiveRule name path) →
    ∃ walk, path = " -> ".intercalate (walk ++ [name]) ∧ (walk ++ [name]).IsChain g.RefersTo ∧ walk.Nodup ∧ name ∈ walk

/-- The references of every parsed grammar that is not too large are checked, and what is said of them is true. -/
theorem lexer_checksReferences {source : String} {g : Grammar} (hg : parse source = .ok g)
    (hcount : g.implicitLiterals.length + g.rules.length ≤ ruleLimit) (log : Log) :
    ChecksReferences g (g.lexer.run log).1 := by
  have hnodup := nodup_names_of_parse hg
  have htruthful {e : Error} (h : (g.lexer.run log).1 = .error e) (he : e.IsAboutReferences) : e.IsTruthful g :=
    isTruthful_of_patterns ((lexer_run_eq_error_iff hcount he).mp h)
  have hend : g.CanBeInlined ∨ ∃ e, (g.lexer.run log).1 = .error e ∧ e.IsAboutReferences := by
    cases hpatterns : g.patterns with
    | ok patterns =>
      refine .inl fun rule hrule => ?_
      obtain ⟨found, body, hfound, hbody⟩ := exists_inlined_of_patterns (rulesWellFormed_of_parse hg) hpatterns rule hrule
      obtain rfl := Option.some.inj (hfound.symm.trans ((rule?_eq_some_iff hnodup).mpr ⟨hrule, rfl⟩))
      exact ⟨body, hbody⟩
    | error e =>
      have he := (isTruthful_of_patterns hpatterns).isAboutReferences
      exact .inr ⟨e, (lexer_run_eq_error_iff hcount he).mpr hpatterns, he⟩
  refine
    { refused_iff := ⟨fun ⟨e, h, he⟩ => (htruthful h he).dangling_or_cycle, fun hwrong => ?_⟩
      inlined_or_refused := hend
      undefined := fun name reference h => htruthful h trivial
      recursive := fun name path h => htruthful h trivial }
  exact hend.resolve_left fun hinlined => hinlined.not_dangling_or_cycle hnodup hwrong

/-- Two rules may refer to the same one, but two fragments that refer to each other are refused, though no other rule
refers to them. -/
theorem lexer_checksReferences_fragments :
    ∃ g, parse "lexer grammar G; A : B C ; B : D ; C : D ; D : 'd' ; fragment E : (F | 'e')+ ; fragment F : E? ;" = .ok g ∧
      g.implicitLiterals.length + g.rules.length ≤ ruleLimit ∧
      ChecksReferences g (g.lexer.run (.empty .error)).1 ∧
      (g.lexer.run (.empty .error)).1 = .error (.recursiveRule "E" "E -> F -> E") := by
  have hok : (match
      parse "lexer grammar G; A : B C ; B : D ; C : D ; D : 'd' ; fragment E : (F | 'e')+ ; fragment F : E? ;" with
    | .ok g => decide (g.implicitLiterals.length + g.rules.length ≤ ruleLimit) &&
      match (g.lexer.run (.empty .error)).1 with
      | .error e => e = .recursiveRule "E" "E -> F -> E"
      | .ok _ => false
    | .error _ => false) = true := by decide +kernel
  split at hok
  · next g hg =>
    obtain ⟨hcount, herror⟩ := Bool.and_eq_true_iff.mp hok
    have hcount := of_decide_eq_true hcount
    refine ⟨g, hg, hcount, lexer_checksReferences hg hcount _, ?_⟩
    split at herror
    · next e he => rw [he, of_decide_eq_true herror]
    · cases herror
  · cases hok

end Grammar

end Lexeme
