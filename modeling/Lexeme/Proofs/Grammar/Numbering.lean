import Lexeme.Proofs.Coverage
import Lexeme.Proofs.Grammar.Declarations
import Lexeme.Proofs.Grammar.Memory
import Mathlib.Data.List.Forall2

/-!
# The numbers of categories

The categories of a lexer count up from one, through three groups of entries without a gap: the declared tokens that are
no rules, the literals of the parser that are not all of a rule, and the rules that are not fragments. The entries of the
last two groups have matchers, in the same order (`Lexer.Numbers`). So among the matchers that match a literal of the parser
as a whole, that of its own entry comes before those of all rules, and if there is no such entry, that of the first rule
that has nothing else in its body comes before those after it (`lexerOfSource_numbers`).
-/

namespace Lexeme.Grammar

variable {g : Grammar} {lexer : Lexer} {names literals : List String} {rules : List Rule}

/-! ## Patterns -/

/-- Each rule has the pattern that it is expanded to. -/
theorem expandRule_of_patterns {patterns : List (Rule × Pattern)} (h : g.patterns = .ok patterns) :
    ∀ p ∈ patterns, expandRule g [] p.1.name = .ok p.2 := by
  have hrun {rules : List Rule} {found after : Found} {patterns : List (Rule × Pattern)}
      (h : RunAll (fun rule => do return (rule, ← findRule g [] rule.name)) rules found patterns after)
      (hsound : Sound g found) : ∀ p ∈ patterns, expandRule g [] p.1.name = .ok p.2 := by
    induction h with
    | nil => nofun
    | @cons rule rules p patterns found between after hhead _ ih =>
      obtain ⟨pattern, last, hfind, hpair⟩ := bind_run_eq_ok_iff.mp hhead
      obtain ⟨rfl, rfl⟩ := pure_run_eq_ok_iff.mp hpair
      have hmirrored := mirrors_find.1 [] rule.name found hsound (List.forall_mem_nil _)
      rw [hfind] at hmirrored
      refine List.forall_mem_cons.mpr ⟨hmirrored.eq.symm, ih hmirrored.sound⟩
  exact hrun (runAll_of_mapM (Prod.ext h rfl)) sound_nil

/-- A rule whose body is one literal matches the literal as a whole. -/
theorem matchLength?_of_literal {rule : Rule} {literal : String} {m : Matcher} (hrule : g.rule? rule.name = some rule)
    (hbody : rule.alternatives = [[.literal literal]]) (hpattern : expandRule g [] rule.name = .ok m.pattern) :
    m.matchLength? literal.toList = some literal.toList.length := by
  have hgroup : m.pattern = .group (.literal literal.toList) := by
    rw [expandRule_of_rule? List.not_mem_nil hrule, hbody] at hpattern
    simp only [expandAlternatives, expandSequence, expandElement] at hpattern
    exact (Except.ok.inj hpattern).symm
  -- parentheses make no difference to the program
  have hmachine : m.machine = (Pattern.literal literal.toList).machine := by rw [m.machine_eq, hgroup]; rfl
  rw [Matcher.matchLength?, hmachine, Pattern.matchLength?_literal, if_pos (List.prefix_refl _)]

/-! ## Entries -/

/-- What a category is for. -/
inductive Entry where
  | token (name : String)
  | literal (text : String)
  | rule (r : Rule)

namespace Entry

/-- What the category of an entry is called. -/
def kind : Entry → Kind
  | token name => ⟨none, some name⟩
  | literal text => ⟨some text, none⟩
  | rule r => ⟨r.literal?, some r.name⟩

/-- Whether a matcher is that of an entry. A token that is no rule has none. -/
inductive Matched (g : Grammar) : Entry → Matcher → Prop
  | literal {text : String} {m : Matcher} (haction : m.action = .emit defaultChannel)
      (hpattern : m.pattern = .literal text.toList) : Matched g (literal text) m
  | rule {r : Rule} {m : Matcher} (haction : m.action = r.action) (hpattern : expandRule g [] r.name = .ok m.pattern) :
      Matched g (rule r) m

end Entry

/-- Whether the categories of a lexer stand for the three groups of entries, one after the other, and the matchers for the
last two. -/
structure Lexer.Numbers (lexer : Lexer) (g : Grammar) (names literals : List String) (rules : List Rule) : Prop where
  /-- The first group consists of the declared tokens that name no rule. -/
  names_eq : names = g.declaredTokens.filter (· ∉ g.rules.map Rule.name)
  /-- The second group consists of the literals of the parser that are not all of a rule other than a fragment. -/
  literals_sublist : literals.Sublist g.parserLiterals
  mem_literals_iff : ∀ literal, literal ∈ literals ↔ literal ∈ g.parserLiterals ∧
    ∀ rule ∈ g.rules, rule.isFragment = false → rule.alternatives ≠ [[.literal literal]]
  /-- The third group consists of the rules other than fragments. -/
  rules_eq : rules = g.rules.filter (!·.isFragment)
  literal?_eq_some_iff : ∀ rule ∈ rules, ∀ literal, rule.literal? = some literal ↔ rule.alternatives = [[.literal literal]]
  kinds_eq : (List.range' 1 lexer.vocabulary.maxCategory).map lexer.vocabulary.kind? =
    (names.map Entry.token ++ literals.map Entry.literal ++ rules.map Entry.rule).map fun entry => some entry.kind
  matched : List.Forall₂ (Entry.Matched g) (literals.map Entry.literal ++ rules.map Entry.rule) lexer.matchers
  categories_eq : lexer.matchers.map Matcher.category = List.range' (names.length + 1) (literals.length + rules.length)

/-- The categories that have been defined are called as they were, in order. -/
theorem map_kind?_defineAll (kinds : List Kind) :
    (List.range' 1 (Vocabulary.empty.defineAll kinds).maxCategory).map (Vocabulary.empty.defineAll kinds).kind? =
      kinds.map some := by
  have hlength : (Vocabulary.empty.defineAll kinds).maxCategory = kinds.length := by
    rw [Vocabulary.maxCategory, ← Array.length_toList, Vocabulary.toList_defineAll]
    rfl
  refine List.ext_getElem (by simp [hlength]) fun i hlt hlt' => ?_
  have hlt : i < kinds.length := by simpa using hlt'
  simp [List.getElem_range', Nat.add_comm 1 i, Vocabulary.kind?_defineAll, hlt]

/-- Matchers are related to entries as what they are made of, whatever their categories. -/
theorem forall₂_matchersFrom {R : Entry → Matcher → Prop} {entries : List Entry} {recipes : List Recipe}
    (h : List.Forall₂ (fun entry recipe => ∀ category, R entry (.ofPattern recipe.1 category recipe.2.1 recipe.2.2))
      entries recipes) (category : Nat) : List.Forall₂ R entries (matchersFrom category recipes) := by
  induction h generalizing category with
  | nil => exact .nil
  | cons h _ ih => exact .cons (h category) (ih (category + 1))

/-- The matchers of a grammar are those of the entries of the last two groups. -/
theorem forall₂_matched {matchers : List Matcher} (h : g.matchers = .ok matchers) :
    List.Forall₂ (Entry.Matched g) (g.implicitLiterals.map Entry.literal ++ g.tokenRules.map Entry.rule) matchers := by
  obtain ⟨patterns, hpatterns, rfl⟩ := matchers_eq_ok_iff.mp h
  refine forall₂_matchersFrom ?_ _
  rw [← map_fst_filter_patterns hpatterns, List.map_map, recipes]
  refine List.rel_append ?_ ?_
  · rw [List.forall₂_map_left_iff, List.forall₂_map_right_iff, List.forall₂_same]
    exact fun literal _ category => .literal rfl rfl
  · rw [List.forall₂_map_left_iff, List.forall₂_map_right_iff, List.forall₂_same]
    exact fun p hp category => .rule rfl (expandRule_of_patterns hpatterns p (List.mem_of_mem_filter hp))

/-- The categories of an accepted grammar are numbered in three groups. -/
theorem numbers_of_accepted {matchers : List Matcher} (h : Accepted g matchers) (title : String) :
    Lexer.Numbers ⟨title, g.vocabulary, matchers⟩ g g.bareTokens g.implicitLiterals g.tokenRules where
  names_eq := by
    unfold bareTokens
    refine List.filter_congr fun name _ => ?_
    rw [Bool.eq_iff_iff, Option.isNone_iff_eq_none, rule?_eq_none_iff, decide_eq_true_iff]
    simp
  literals_sublist := List.filter_sublist
  mem_literals_iff := fun literal => mem_implicitLiterals_iff
  rules_eq := rfl
  literal?_eq_some_iff := fun rule hrule literal => by
    have hfragment : rule.isFragment = false := by simpa using (List.mem_filter.mp hrule).2
    rw [Grammar.literal?_eq_some_iff, and_iff_right hfragment]
  kinds_eq := by
    rw [vocabulary, map_kind?_defineAll]
    simp [Function.comp_def, Entry.kind]
  matched := forall₂_matched h.matchers_eq
  categories_eq := by
    obtain ⟨patterns, hpatterns, rfl⟩ := matchers_eq_ok_iff.mp h.matchers_eq
    rw [map_category_matchersFrom, recipes, List.length_append, List.length_map, List.length_map,
      ← map_fst_filter_patterns hpatterns, List.length_map]

/-! ## Literals -/

/-- What becomes of a literal of the parser that is a text of its own: it is one segment. If it has an entry, it is its
token; if it has none, it belongs to a rule that is not after the first rule whose body is the literal. -/
structure Lexer.Takes (lexer : Lexer) (names literals : List String) (rules : List Rule) (literal : String)
    (m : Matcher) : Prop where
  cut_eq : Matcher.cut lexer.matchers literal.toList = ⟨[⟨m, literal.toList⟩], none⟩
  tokens_eq : lexer.tokens literal = .ok (Segment.tokens Matcher.place [⟨m, literal.toList⟩])
  token_of_mem : literal ∈ literals → lexer.vocabulary.kind? m.category = some ⟨some literal, none⟩ ∧
    lexer.tokens literal = .ok [⟨literal, m.category, defaultChannel, .start⟩]
  rule_of_notMem : literal ∉ literals → ∃ i rule, rules[i]? = some rule ∧
    lexer.vocabulary.kind? m.category = some ⟨rule.literal?, some rule.name⟩ ∧
    m.category = names.length + literals.length + 1 + i ∧
    ∀ j other, rules[j]? = some other → other.alternatives = [[.literal literal]] → i ≤ j

namespace Lexer.Numbers

variable {m : Matcher} {literal : String}

/-- The matcher at a place is that of the entry there, and its category counts the place. -/
theorem getElem?_matchers (h : lexer.Numbers g names literals rules) {i : Nat} {entry : Entry}
    (hi : (literals.map Entry.literal ++ rules.map Entry.rule)[i]? = some entry) :
    ∃ m, lexer.matchers[i]? = some m ∧ entry.Matched g m ∧ m.category = names.length + 1 + i := by
  obtain ⟨hentry, rfl⟩ := List.getElem?_eq_some_iff.mp hi
  have hlt : i < lexer.matchers.length := h.matched.length_eq ▸ hentry
  refine ⟨lexer.matchers[i], List.getElem?_eq_getElem hlt, by simpa using h.matched.get hentry hlt, ?_⟩
  have hcategory := congrArg (·[i]?) h.categories_eq
  rw [List.getElem?_map, List.getElem?_eq_getElem hlt] at hcategory
  obtain ⟨hrange, hvalue⟩ := List.getElem?_eq_some_iff.mp hcategory.symm
  rw [← hvalue, List.getElem_range', Nat.one_mul]

/-- Every matcher is that of the entry at its place. -/
theorem exists_entry (h : lexer.Numbers g names literals rules) (hm : m ∈ lexer.matchers) : ∃ i entry,
    (literals.map Entry.literal ++ rules.map Entry.rule)[i]? = some entry ∧ entry.Matched g m ∧
      m.category = names.length + 1 + i := by
  obtain ⟨i, hlt, rfl⟩ := List.mem_iff_getElem.mp hm
  have hentry : i < (literals.map Entry.literal ++ rules.map Entry.rule).length := h.matched.length_eq.symm ▸ hlt
  obtain ⟨m, hm, hmatched, hcategory⟩ := h.getElem?_matchers (List.getElem?_eq_getElem hentry)
  rw [List.getElem?_eq_getElem hlt] at hm
  obtain rfl := Option.some.inj hm
  exact ⟨i, _, List.getElem?_eq_getElem hentry, hmatched, hcategory⟩

/-- The category of a matcher is called as its entry is. -/
theorem kind?_eq (h : lexer.Numbers g names literals rules) {i : Nat} {entry : Entry}
    (hi : (literals.map Entry.literal ++ rules.map Entry.rule)[i]? = some entry) :
    lexer.vocabulary.kind? (names.length + 1 + i) = some entry.kind := by
  have hkind := congrArg (·[names.length + i]?) h.kinds_eq
  rw [List.append_assoc, List.map_append, List.getElem?_append_right (by simp), List.getElem?_map, List.getElem?_map,
    List.length_map, List.length_map, Nat.add_sub_cancel_left, hi] at hkind
  obtain ⟨category, hcategory, hentry⟩ := Option.map_eq_some_iff.mp hkind
  obtain ⟨hlt, hvalue⟩ := List.getElem?_eq_some_iff.mp hcategory
  rw [List.getElem_range', Nat.one_mul] at hvalue
  rw [← hvalue, Nat.add_comm, Nat.add_right_comm] at hentry
  exact hentry

end Lexer.Numbers

/-- An entry of the last two groups that is a literal is one of the literals. -/
theorem mem_of_getElem?_literal {i : Nat} {text : String}
    (hi : (literals.map Entry.literal ++ rules.map Entry.rule)[i]? = some (.literal text)) : text ∈ literals := by
  simpa using List.mem_of_getElem? hi

/-- The entries of rules come after those of literals. -/
theorem getElem?_rule_iff {i : Nat} {rule : Rule} :
    (literals.map Entry.literal ++ rules.map Entry.rule)[i]? = some (.rule rule) ↔
      ∃ j, i = literals.length + j ∧ rules[j]? = some rule := by
  constructor
  · intro hi
    rcases Nat.lt_or_ge i literals.length with hlt | hge
    · rw [List.getElem?_append_left (by simpa using hlt), List.getElem?_map] at hi
      obtain ⟨text, -, heq⟩ := Option.map_eq_some_iff.mp hi
      cases heq
    · rw [List.getElem?_append_right (by simpa using hge), List.getElem?_map, List.length_map] at hi
      obtain ⟨other, hother, heq⟩ := Option.map_eq_some_iff.mp hi
      cases heq
      exact ⟨i - literals.length, by omega, hother⟩
  · rintro ⟨j, rfl, hj⟩
    rw [List.getElem?_append_right (by simp), List.getElem?_map, List.length_map, Nat.add_sub_cancel_left, hj]
    rfl

/-- A literal of the parser that is a text of its own is one segment. -/
theorem exists_takes {matchers : List Matcher} (h : Accepted g matchers) (hnodup : (g.rules.map Rule.name).Nodup)
    {literal : String} (hliteral : literal ∈ g.parserLiterals) (hne : literal ≠ "") (title : String) :
    ∃ m ∈ matchers, Lexer.Takes ⟨title, g.vocabulary, matchers⟩ g.bareTokens g.implicitLiterals g.tokenRules literal m := by
  have hnumbers := numbers_of_accepted h title
  have hascending := ascending_of_matchers h.matchers_eq
  have hcut {m : Matcher} (hwins : Matcher.Wins matchers literal.toList literal.toList.length m) :
      Matcher.cut matchers literal.toList = ⟨[⟨m, literal.toList⟩], none⟩ :=
    Matcher.cut_of_munched hascending (Matcher.munched_of_wins hwins) (.inl rfl)
  have htokens {m : Matcher} (hwins : Matcher.Wins matchers literal.toList literal.toList.length m) :
      Matcher.tokens matchers literal = .ok (Segment.tokens Matcher.place [⟨m, literal.toList⟩]) := by
    rw [Matcher.tokens, hcut hwins]
    rfl
  by_cases hmem : literal ∈ g.implicitLiterals
  · obtain ⟨m, hof, hwins⟩ := exists_wins_literal h.matchers_eq hmem hne
    refine ⟨m, hwins.mem, hcut hwins, htokens hwins, fun _ => ⟨hof.kind_eq, (htokens hwins).trans ?_⟩,
      fun hnot => absurd hmem hnot⟩
    simp [Segment.tokens, Segment.tokensFrom, Matcher.place, hof.action_eq]
  · -- each rule with the literal as its body has a matcher that matches the literal
    have hmatch {j : Nat} {other : Rule} (hj : g.tokenRules[j]? = some other)
        (hbody : other.alternatives = [[.literal literal]]) : ∃ m ∈ matchers,
          m.category = g.bareTokens.length + 1 + (g.implicitLiterals.length + j) ∧
            m.matchLength? literal.toList = some literal.toList.length := by
      obtain ⟨m, hm, hmatched, hcategory⟩ := hnumbers.getElem?_matchers (getElem?_rule_iff.mpr ⟨j, rfl, hj⟩)
      cases hmatched with
      | rule _ hpattern =>
        have hrule : g.rule? other.name = some other :=
          (rule?_eq_some_iff hnodup).mpr ⟨List.mem_of_mem_filter (List.mem_of_getElem? hj), rfl⟩
        exact ⟨m, List.mem_of_getElem? hm, hcategory, matchLength?_of_literal hrule hbody hpattern⟩
    obtain ⟨first, hfirst, hbody⟩ : ∃ rule ∈ g.tokenRules, rule.alternatives = [[.literal literal]] := by
      rw [mem_implicitLiterals_iff] at hmem
      simp only [not_and, not_forall, not_not, ne_eq] at hmem
      obtain ⟨rule, hrule, hfragment, hbody⟩ := hmem hliteral
      exact ⟨rule, List.mem_filter.mpr ⟨hrule, by simp [hfragment]⟩, hbody⟩
    obtain ⟨j, hj⟩ := List.mem_iff_getElem?.mp hfirst
    obtain ⟨m, hm, -, hwhole⟩ := hmatch hj hbody
    obtain ⟨w, hwins, -⟩ := Matcher.exists_wins_of_matchLength? hascending hm (by simpa using hne) hwhole
    obtain ⟨i, entry, hi, hmatched, hcategory⟩ := hnumbers.exists_entry hwins.mem
    have hkind := hnumbers.kind?_eq hi
    cases hmatched with
    | @literal text _ _ hpattern =>
      -- the winner would be the matcher of the literal, which has none
      have hwinner : w.matchLength? (literal.toList ++ []) = some literal.toList.length := by
        rw [List.append_nil]
        exact hwins.matches_eq
      have htext : literal.toList = text.toList := Matcher.eq_of_matchLength?_literal hpattern hwinner
      exact absurd (String.toList_inj.mp htext ▸ mem_of_getElem?_literal hi) hmem
    | @rule rule _ _ _ =>
      obtain ⟨i, rfl, hrule⟩ := getElem?_rule_iff.mp hi
      refine ⟨w, hwins.mem, hcut hwins, htokens hwins, fun hnot => absurd hnot hmem,
        fun _ => ⟨i, rule, hrule, hcategory ▸ hkind, hcategory.trans (by omega), fun j other hj hbody => ?_⟩⟩
      obtain ⟨m, hm, hmcategory, hmwhole⟩ := hmatch hj hbody
      have hle := hwins.lowest m hm hmwhole
      omega

/-- **The numbers of categories.** The categories of an accepted source are numbered without a gap: first come the declared
tokens that name no rule, then the literals of the parser that are not all of a rule, in the order of their first use, then
the rules that are not fragments, in the order in which they stand. The last two groups have the matchers, in the same
order. So a literal of the parser that is a text of its own is one segment: the token of the literal, or what belongs to a
rule that is not after the first whose body is the literal. -/
theorem lexerOfSource_numbers {source : String} {log : Log} (h : ((lexerOfSource source).run log).1 = .ok lexer) :
    ∃ last onlyLexer title told names literals rules, Tells source last onlyLexer title told [] ∧
      lexer.Numbers (ofTold title told) names literals rules ∧
      ∀ literal ∈ (ofTold title told).parserLiterals, ∃ m ∈ lexer.matchers, lexer.Takes names literals rules literal m := by
  obtain ⟨g, matchers, hg, haccepted, rfl⟩ := lexerOfSource_eq_ok_iff.mp h
  obtain ⟨last, onlyLexer, told, htells, -, htold⟩ := parse_eq_ok_iff.mp hg
  have hwf := wellFormed_of_parse hg
  refine ⟨last, onlyLexer, g.name, told, g.bareTokens, g.implicitLiterals, g.tokenRules, htells, ?_⟩
  rw [← htold]
  exact ⟨numbers_of_accepted haccepted _, fun literal hliteral =>
    exists_takes haccepted hwf.nodup_names hliteral (hwf.parserLiterals_ne literal hliteral) _⟩

/-- A source with a token that is no rule, a literal of its own, and one that is all of a rule but belongs to another. -/
theorem lexerOfSource_numbers_minus :
    ∃ lexer, ((lexerOfSource "grammar G; tokens \x7b BARE, MINUS \x7d s : '+' '-' '+' ; DASHES : '-'+ ; MINUS : '-' ;").run
      (Log.empty .error)).1 = .ok lexer ∧
      ∃ last onlyLexer title told names literals rules,
        Tells "grammar G; tokens \x7b BARE, MINUS \x7d s : '+' '-' '+' ; DASHES : '-'+ ; MINUS : '-' ;" last onlyLexer title
          told [] ∧
        lexer.Numbers (ofTold title told) names literals rules ∧
        ∀ literal ∈ (ofTold title told).parserLiterals, ∃ m ∈ lexer.matchers, lexer.Takes names literals rules literal m := by
  have hok : ((lexerOfSource "grammar G; tokens \x7b BARE, MINUS \x7d s : '+' '-' '+' ; DASHES : '-'+ ; MINUS : '-' ;").run
      (Log.empty .error)).1.isOk = true := by decide +kernel
  cases h : ((lexerOfSource "grammar G; tokens \x7b BARE, MINUS \x7d s : '+' '-' '+' ; DASHES : '-'+ ; MINUS : '-' ;").run
      (Log.empty .error)).1 with
  | error e => rw [h] at hok; cases hok
  | ok lexer => exact ⟨lexer, rfl, lexerOfSource_numbers h⟩

end Lexeme.Grammar
