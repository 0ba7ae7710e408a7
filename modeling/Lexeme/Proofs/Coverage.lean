import Lexeme.Proofs.Grammar.Vocabulary
import Lexeme.Proofs.Tokenizer

/-!
# Tables that cover a grammar

The tokens of a grammar that have no symbol are its parser literals that no rule stands for, each with just the text of
the literal (`exists_literal_of_token`). The other way round, such a literal wins over all rules when it is a text of its
own (`tokens_literal`), since the matchers of literals have the lower categories. So a table lacks a substitute for some
text exactly when it lacks one for a literal of the grammar (`exists_substitution_error_iff`).
-/

namespace Lexeme

open Grammar

namespace Matcher

variable {m : Matcher} {literal : List Char}

/-- A matcher with the pattern of a literal matches just the texts that begin with the literal. -/
theorem matchLength?_of_literal (h : m.pattern = .literal literal) (s : List Char) :
    m.matchLength? s = if literal <+: s then some literal.length else none := by
  rw [matchLength?, m.machine_eq, h, Pattern.matchLength?_literal]

/-- A match of a literal with the length of the text before the rest is the literal. -/
theorem eq_of_matchLength?_literal (h : m.pattern = .literal literal) {text rest : List Char}
    (hmatch : m.matchLength? (text ++ rest) = some text.length) : text = literal := by
  rw [matchLength?_of_literal h] at hmatch
  split at hmatch
  · next hbegins =>
    have hlength : literal.length = text.length := Option.some.inj hmatch
    exact (List.prefix_of_prefix_length_le hbegins (List.prefix_append text rest) (Nat.le_of_eq hlength)).eq_of_length
      hlength |>.symm
  · cases hmatch

end Matcher

/-! ## Tokens -/

namespace Grammar

variable {g : Grammar} {matchers : List Matcher} {m : Matcher} {literal : String}

theorem OfLiteral.matchLength?_eq (h : OfLiteral g literal m) (s : List Char) :
    m.matchLength? s = if literal.toList <+: s then some literal.toList.length else none :=
  Matcher.matchLength?_of_literal h.pattern_eq s

theorem OfLiteral.symbol?_eq (h : OfLiteral g literal m) : g.vocabulary.symbol? m.category = none := by
  rw [Vocabulary.symbol?, h.kind_eq]
  rfl

theorem OfLiteral.literalName?_eq (h : OfLiteral g literal m) :
    g.vocabulary.literalName? m.category = some s!"'{literal}'" := by
  rw [Vocabulary.literalName?, h.kind_eq]
  rfl

theorem OfRule.symbol?_eq {rule : Rule} (h : OfRule g rule m) : g.vocabulary.symbol? m.category = some rule.name := by
  rw [Vocabulary.symbol?, h.kind_eq]
  rfl

/-- The end of input is no literal. -/
theorem OfLiteral.category_pos (h : OfLiteral g literal m) : 0 < m.category := by
  refine Nat.pos_of_ne_zero fun hzero => ?_
  have hkind := h.kind_eq
  rw [hzero] at hkind
  cases hkind

theorem OfLiteral.text_eq (h : OfLiteral g literal m) {text rest : List Char}
    (hmatch : m.matchLength? (text ++ rest) = some text.length) : text = literal.toList :=
  Matcher.eq_of_matchLength?_literal h.pattern_eq hmatch

theorem ascending_of_matchers (h : g.matchers = .ok matchers) : Matcher.Ascending matchers := by
  obtain ⟨patterns, -, rfl⟩ := matchers_eq_ok_iff.mp h
  exact ascending_matchersFrom _ _

/-- A token has the category of a rule, or of a literal that it has as its text. -/
theorem token_cases (h : g.matchers = .ok matchers) {text : String} {ts : List Token}
    (hts : Matcher.tokens matchers text = .ok ts) {t : Token} (ht : t ∈ ts) :
    ∃ m ∈ matchers, t.category = m.category ∧ (OfLiteral g t.text m ∨ ∃ rule, OfRule g rule m) := by
  obtain ⟨m, hm, hplace, rest, hmatch⟩ := Matcher.exists_matcher_of_tokens (ascending_of_matchers h) hts ht
  refine ⟨m, hm, Matcher.category_of_place hplace, ?_⟩
  rcases matcher_cases h hm with ⟨literal, hliteral⟩ | hrule
  · rw [String.toList_inj.mp (hliteral.text_eq hmatch)]
    exact .inl hliteral
  · exact .inr hrule

/-- A literal that no rule stands for wins over all rules when it is the whole text. -/
theorem exists_wins_literal (h : g.matchers = .ok matchers) (hliteral : literal ∈ g.implicitLiterals) (hne : literal ≠ "") :
    ∃ m, OfLiteral g literal m ∧ Matcher.Wins matchers literal.toList literal.toList.length m := by
  obtain ⟨m, hm, hof⟩ := exists_ofLiteral h hliteral
  have hmatch : m.matchLength? literal.toList = some literal.toList.length := by
    rw [hof.matchLength?_eq, if_pos (List.prefix_refl _)]
  obtain ⟨w, hwins, hcategory⟩ :=
    Matcher.exists_wins_of_matchLength? (ascending_of_matchers h) hm (by simpa using hne) hmatch
  refine ⟨w, ?_, hwins⟩
  -- the winner's category is not higher, so it is the matcher of a literal, and there is room for no other literal
  rcases matcher_cases h hwins.mem with ⟨other, hother⟩ | ⟨rule, hrule⟩
  · have hwhole : w.matchLength? (literal.toList ++ []) = some literal.toList.length := by
      rw [List.append_nil]
      exact hwins.matches_eq
    rwa [String.toList_inj.mp (hother.text_eq hwhole)]
  · have hlow := hof.category_le
    have hhigh := hrule.lt_category
    omega

/-- A literal that no rule stands for is one token when it is the whole text. -/
theorem tokens_literal (h : g.matchers = .ok matchers) (hliteral : literal ∈ g.implicitLiterals) (hne : literal ≠ "") :
    ∃ m ∈ matchers, OfLiteral g literal m ∧
      Matcher.tokens matchers literal = .ok [⟨literal, m.category, defaultChannel, .start⟩] := by
  obtain ⟨m, hof, hwins⟩ := exists_wins_literal h hliteral hne
  refine ⟨m, hwins.mem, hof,
    (Matcher.tokens_eq_ok_iff (ascending_of_matchers h)).mpr ⟨_, Matcher.munched_of_wins hwins, ?_⟩⟩
  simp [Segment.emitted, Segment.token?, Matcher.place, hof.action_eq]

end Grammar

/-! ## Missing substitutes -/

/-- Whether a table has no legal name for a literal. -/
def Substitutions.Misses (table : Substitutions) (literal : String) : Prop :=
  Terminal.isLegal literal = false ∧ table.lookup? literal = none

/-- For every grammar and every table there is a text that is refused for a missing substitute exactly when the table has
no name for one of the parser literals that are not all of a rule that makes tokens. Every token has one of the categories
of the vocabulary, and if that has no symbol, just the text of its literal. -/
theorem exists_substitution_error_iff {source : String} {log : Log} {engine : Engine}
    (hengine : ((Engine.ofGrammar source).run log).1 = .ok engine) :
    ∃ g, Grammar.parse source = .ok g ∧
      (∀ table later,
        (∃ text e, ((Tokenizer.records ⟨engine, table⟩ text).run later).1 = .error (.substitution e)) ↔
          ∃ literal ∈ g.parserLiterals,
            (∀ rule ∈ g.rules, rule.isFragment = false → rule.alternatives ≠ [[.literal literal]]) ∧
              table.Misses literal) ∧
      ∀ text ts, engine.tokens text = .ok ts → ∀ t ∈ ts,
        1 ≤ t.category ∧ t.category ≤ engine.vocabulary.maxCategory ∧
          (engine.vocabulary.symbol? t.category = none →
            engine.vocabulary.literalName? t.category = some s!"'{t.text}'") := by
  obtain ⟨lexer, hlexer, rfl⟩ := Engine.ofGrammar_eq_ok_iff.mp hengine
  obtain ⟨g, matchers, hg, haccepted, rfl⟩ := Grammar.lexerOfSource_eq_ok_iff.mp hlexer
  have hmatchers := haccepted.matchers_eq
  refine ⟨g, hg, fun table later => ⟨?_, ?_⟩, ?_⟩
  · rintro ⟨text, e, h⟩
    obtain ⟨ts, hts, t, ht, -, hrecord⟩ := Tokenizer.exists_token_of_error h
    obtain ⟨hnone, hnormalized⟩ := Token.record_eq_error_iff.mp hrecord
    obtain ⟨m, -, hcategory, hliteral | ⟨rule, hrule⟩⟩ := token_cases hmatchers hts ht
    · obtain ⟨-, hmisses⟩ := Substitutions.normalized_eq_error_iff.mp hnormalized
      obtain ⟨hmem, hrules⟩ := mem_implicitLiterals_iff.mp hliteral.mem
      exact ⟨t.text, hmem, hrules, hmisses⟩
    · rw [hcategory] at hnone
      cases hnone.symm.trans hrule.symbol?_eq
  · rintro ⟨literal, hmem, hrules, hmisses⟩
    have hne : literal ≠ "" := by
      rintro rfl
      exact absurd hmisses.1 (by decide)
    obtain ⟨m, -, hliteral, htokens⟩ := tokens_literal hmatchers (mem_implicitLiterals_iff.mpr ⟨hmem, hrules⟩) hne
    have hrecord : Token.record g.vocabulary table ⟨literal, m.category, defaultChannel, .start⟩ =
        .error (.missingEntry literal) :=
      Token.record_eq_error_iff.mpr ⟨hliteral.symbol?_eq, Substitutions.normalized_eq_error_iff.mpr ⟨rfl, hmisses⟩⟩
    let t : Tokenizer := ⟨Engine.ofLexer ⟨s!"grammar {g.name}", g.vocabulary, matchers⟩, table⟩
    have ht : t.engine.tokens literal = .ok [⟨literal, m.category, defaultChannel, .start⟩] := htokens
    exact ⟨literal, _, Tokenizer.records_of_singleton ht rfl hrecord later⟩
  · intro text ts hts t ht
    obtain ⟨m, -, hcategory, hcases⟩ := token_cases hmatchers hts ht
    rw [hcategory]
    rcases hcases with hliteral | ⟨rule, hrule⟩
    · exact ⟨hliteral.category_pos, Vocabulary.le_maxCategory_of_kind? hliteral.kind_eq, fun _ => hliteral.literalName?_eq⟩
    · refine ⟨Nat.zero_lt_of_lt hrule.lt_category, Vocabulary.le_maxCategory_of_kind? hrule.kind_eq, fun hnone => ?_⟩
      cases hnone.symm.trans hrule.symbol?_eq

/-- A table need not have a literal that a rule stands for, but any other that is not legal. -/
theorem exists_substitution_error_iff_plus :
    ∃ engine, ((Engine.ofGrammar "grammar G; s : '+' '-' ; MINUS : '-' ;").run (Log.empty .error)).1 = .ok engine ∧
      (∃ text e, ((Tokenizer.records ⟨engine, ⟨[]⟩⟩ text).run (Log.empty .error)).1 = .error (.substitution e)) ∧
      ¬∃ text e, ((Tokenizer.records ⟨engine, ⟨[("+", "PLUS")]⟩⟩ text).run (Log.empty .error)).1 = .error (.substitution e) := by
  have hok : ((Engine.ofGrammar "grammar G; s : '+' '-' ; MINUS : '-' ;").run (Log.empty .error)).1.isOk = true := by
    decide +kernel
  have hparse : (Grammar.parse "grammar G; s : '+' '-' ; MINUS : '-' ;").toOption.map Grammar.implicitLiterals =
      some ["+"] := by decide +kernel
  cases hengine : ((Engine.ofGrammar "grammar G; s : '+' '-' ; MINUS : '-' ;").run (Log.empty .error)).1 with
  | error e => rw [hengine] at hok; cases hok
  | ok engine =>
    obtain ⟨g, hg, hiff, -⟩ := exists_substitution_error_iff hengine
    rw [hg] at hparse
    have himplicit : g.implicitLiterals = ["+"] := Option.some.inj hparse
    refine ⟨engine, rfl, (hiff _ _).mpr ?_, fun h => ?_⟩
    · obtain ⟨hmem, hrules⟩ := mem_implicitLiterals_iff.mp (himplicit ▸ List.mem_singleton_self "+")
      exact ⟨"+", hmem, hrules, by decide, rfl⟩
    · obtain ⟨literal, hmem, hrules, -, hlookup⟩ := (hiff _ _).mp h
      have hliteral := mem_implicitLiterals_iff.mpr ⟨hmem, hrules⟩
      rw [himplicit, List.mem_singleton] at hliteral
      rw [hliteral] at hlookup
      cases hlookup

end Lexeme
