import Lexeme.Proofs.Grammar.Lexer
import Lexeme.Proofs.Pattern.Literal

/-!
# The categories of a grammar

The matchers of a grammar have the categories after those of the declared tokens that no rule describes. Those of literals
come first: their categories have the literal and no symbol. All others are matchers of rules, and the symbol of their
category is the name of the rule (`matcher_cases`).
-/

namespace Lexeme.Grammar

variable {g : Grammar}

/-! ## Literals that no rule stands for -/

theorem literal?_eq_some_iff {rule : Rule} {literal : String} :
    rule.literal? = some literal ↔ rule.isFragment = false ∧ rule.alternatives = [[.literal literal]] := by
  unfold Rule.literal?
  split
  · next text halternatives =>
    cases rule.isFragment <;> simp [halternatives]
  · next hnot =>
    exact iff_of_false (by simp) fun h => hnot literal h.2

/-- The literals without a rule are those of the parser that are not all of a rule that makes tokens. -/
theorem mem_implicitLiterals_iff {literal : String} :
    literal ∈ g.implicitLiterals ↔ literal ∈ g.parserLiterals ∧
      ∀ rule ∈ g.rules, rule.isFragment = false → rule.alternatives ≠ [[.literal literal]] := by
  have haliases : literal ∉ g.aliases ↔ ∀ rule ∈ g.rules, rule.isFragment = false → rule.alternatives ≠ [[.literal literal]] := by
    unfold aliases
    simp only [List.mem_filterMap, literal?_eq_some_iff, not_exists, not_and, ne_eq]
  unfold implicitLiterals
  rw [List.mem_filter, decide_eq_true_iff, haliases]

/-! ## Matchers -/

/-- Whether a matcher is that of a literal. -/
structure OfLiteral (g : Grammar) (literal : String) (m : Matcher) : Prop where
  mem : literal ∈ g.implicitLiterals
  pattern_eq : m.pattern = .literal literal.toList
  action_eq : m.action = .emit defaultChannel
  kind_eq : g.vocabulary.kind? m.category = some ⟨some literal, none⟩
  category_le : m.category ≤ g.bareTokens.length + g.implicitLiterals.length

/-- Whether a matcher is that of a rule. -/
structure OfRule (g : Grammar) (rule : Rule) (m : Matcher) : Prop where
  mem : rule ∈ g.tokenRules
  kind_eq : g.vocabulary.kind? m.category = some ⟨rule.literal?, some rule.name⟩
  lt_category : g.bareTokens.length + g.implicitLiterals.length < m.category

/-- The kinds of the categories that matchers have. -/
theorem kind?_matched (g : Grammar) (i : Nat) : g.vocabulary.kind? (g.bareTokens.length + 1 + i) =
    (g.implicitLiterals.map (fun literal => (⟨some literal, none⟩ : Kind)) ++
      g.tokenRules.map fun rule => ⟨rule.literal?, some rule.name⟩)[i]? := by
  rw [vocabulary, show g.bareTokens.length + 1 + i = g.bareTokens.length + i + 1 by omega, Vocabulary.kind?_defineAll,
    List.append_assoc, List.getElem?_append_right (by simp)]
  simp

/-- The patterns of rules that are not fragments belong to the rules that make tokens. -/
theorem map_fst_filter_patterns {patterns : List (Rule × Pattern)} (h : g.patterns = .ok patterns) :
    (patterns.filter (!·.1.isFragment)).map Prod.fst = g.tokenRules := by
  rw [tokenRules, ← map_fst_of_patterns h, List.filter_map]
  rfl

/-- Every matcher is that of a literal or that of a rule. -/
theorem matcher_cases {matchers : List Matcher} (h : g.matchers = .ok matchers) {m : Matcher} (hm : m ∈ matchers) :
    (∃ literal, OfLiteral g literal m) ∨ ∃ rule, OfRule g rule m := by
  obtain ⟨patterns, hpatterns, rfl⟩ := matchers_eq_ok_iff.mp h
  obtain ⟨i, hi⟩ := List.mem_iff_getElem?.mp hm
  rw [getElem?_matchersFrom] at hi
  obtain ⟨⟨label, action, pattern⟩, hrecipe, rfl⟩ := Option.map_eq_some_iff.mp hi
  have hkind := kind?_matched g i
  rw [recipes] at hrecipe
  rcases Nat.lt_or_ge i g.implicitLiterals.length with hlt | hge
  · rw [List.getElem?_append_left (by simpa using hlt), List.getElem?_map, List.getElem?_eq_getElem hlt] at hrecipe hkind
    cases hrecipe
    refine .inl ⟨_, List.getElem_mem hlt, rfl, rfl, hkind, ?_⟩
    simp only [Matcher.ofPattern]
    omega
  · rw [List.getElem?_append_right (by simpa using hge), List.getElem?_map, List.length_map] at hrecipe hkind
    obtain ⟨⟨rule, _⟩, hrule, -⟩ := Option.map_eq_some_iff.mp hrecipe
    have hrule' : g.tokenRules[i - g.implicitLiterals.length]? = some rule := by
      rw [← map_fst_filter_patterns hpatterns, List.getElem?_map, hrule]
      rfl
    rw [hrule'] at hkind
    refine .inr ⟨rule, List.mem_of_getElem? hrule', hkind, ?_⟩
    simp only [Matcher.ofPattern]
    omega

/-- Every literal that no rule stands for has a matcher. -/
theorem exists_ofLiteral {matchers : List Matcher} (h : g.matchers = .ok matchers) {literal : String}
    (hliteral : literal ∈ g.implicitLiterals) : ∃ m ∈ matchers, OfLiteral g literal m := by
  obtain ⟨patterns, -, rfl⟩ := matchers_eq_ok_iff.mp h
  obtain ⟨i, hlt, rfl⟩ := List.mem_iff_getElem.mp hliteral
  have hkind := kind?_matched g i
  have hmatcher := getElem?_matchersFrom (g.bareTokens.length + 1) (g.recipes patterns) i
  rw [recipes, List.getElem?_append_left (by simpa using hlt), List.getElem?_map, List.getElem?_eq_getElem hlt] at hmatcher
  rw [List.getElem?_append_left (by simpa using hlt), List.getElem?_map, List.getElem?_eq_getElem hlt] at hkind
  refine ⟨_, List.mem_of_getElem? hmatcher, hliteral, rfl, rfl, hkind, ?_⟩
  simp only [Matcher.ofPattern]
  omega

end Lexeme.Grammar
