import Mathlib
import Lexeme.Proofs.Grammar.Vocabulary
import Lexeme.Proofs.Grammar.WellFormed
import Lexeme.Proofs.Tokenizer

/-!
# Which terminals are legal

The terminal that is made from a literal is always a legal name. The terminal that is a symbol is the name of a rule as
it stands in the grammar, and names may have letters of any script. So a text has an illegal terminal exactly when one
of its visible tokens belongs to a rule whose name is not in ASCII (`isLegal_terminals_iff`).
-/

namespace Lexeme

/-! ## Names -/

/-- Whether all characters of a name are in ASCII. -/
def IsAscii (name : String) : Prop := ∀ c ∈ name.toList, c.toNat < 128

/-- Legal characters are in ASCII. -/
theorem toNat_lt_of_isLegalChar {c : Char} (h : Terminal.isLegalChar c = true) : c.toNat < 128 := by
  simp only [Terminal.isLegalChar, Char.isAlphanum, Char.isAlpha, Char.isUpper, Char.isLower, Char.isDigit,
    Bool.or_eq_true, Bool.and_eq_true, decide_eq_true_eq, ge_iff_le, UInt32.le_iff_toNat_le] at h
  rcases h with ((h | h) | h) | rfl
  · exact Nat.lt_of_le_of_lt h.2 (by decide)
  · exact Nat.lt_of_le_of_lt h.2 (by decide)
  · exact Nat.lt_of_le_of_lt h.2 (by decide)
  · decide

/-- In ASCII the characters of names are legal. -/
theorem isLegalChar_of_isNameChar {c : Char} (h : Grammar.isNameChar c = true) (hascii : c.toNat < 128) :
    Terminal.isLegalChar c = true := by
  have hnot : ¬127 < c.toNat := by omega
  simp only [Grammar.isNameChar, Text.isAlphabetic, Text.isNumeric, hnot, decide_false, Bool.false_and, Bool.or_false] at h
  simpa [Terminal.isLegalChar, Char.isAlphanum] using h

/-- A name is legal exactly when it is in ASCII. -/
theorem isLegal_iff_isAscii {name : String} (h : Grammar.IsName name) : Terminal.isLegal name = true ↔ IsAscii name := by
  unfold Terminal.isLegal IsAscii
  rw [List.all_eq_true]
  constructor
  · exact fun hlegal c hc => toNat_lt_of_isLegalChar (hlegal c hc)
  · exact fun hascii c hc => isLegalChar_of_isNameChar (h c hc) (hascii c hc)

/-! ## Symbols -/

namespace Grammar

/-- The symbol of a matcher's category is the name of a rule that makes tokens. -/
theorem exists_rule_of_symbol? {g : Grammar} {matchers : List Matcher} (h : g.matchers = .ok matchers) {m : Matcher}
    (hm : m ∈ matchers) {name : String} (hname : g.vocabulary.symbol? m.category = some name) :
    ∃ rule ∈ g.tokenRules, rule.name = name := by
  obtain ⟨kind, hkind, hsymbol⟩ := Option.bind_eq_some_iff.mp hname
  rcases matcher_cases h hm with ⟨literal, hliteral⟩ | ⟨rule, hrule⟩
  · rw [hliteral.kind_eq] at hkind
    cases hkind
    cases hsymbol
  · rw [hrule.kind_eq] at hkind
    cases hkind
    exact ⟨rule, hrule.mem, Option.some.inj hsymbol⟩

end Grammar

/-! ## Terminals -/

/-- The symbol of a token is the name of a rule of the grammar. -/
theorem Grammar.exists_rule_of_token {g : Grammar} {matchers : List Matcher} (h : g.matchers = .ok matchers)
    {text : String} {tokens : List Token} (htokens : Matcher.tokens matchers text = .ok tokens) {t : Token}
    (ht : t ∈ tokens) {name : String} (hname : g.vocabulary.symbol? t.category = some name) :
    ∃ rule ∈ g.tokenRules, rule.name = name := by
  obtain ⟨patterns, -, hmatchers⟩ := matchers_eq_ok_iff.mp h
  have hascending : Matcher.Ascending matchers := hmatchers ▸ ascending_matchersFrom _ _
  obtain ⟨m, hm, hcategory⟩ := Matcher.exists_category_of_tokens hascending htokens ht
  rw [hcategory] at hname
  exact exists_rule_of_symbol? h hm hname

/-- The terminal of a token is legal exactly when the symbol of its category, if there is one, is in ASCII. -/
theorem isLegal_terminal_iff {v : Vocabulary} {table : Substitutions} (htable : table.Legal) {t : Token} {r : Record}
    (hrecord : t.record v table = .ok r) (hname : ∀ name, v.symbol? t.category = some name → Grammar.IsName name) :
    Terminal.isLegal r.terminal = true ↔ ∀ name, v.symbol? t.category = some name → IsAscii name := by
  rcases Token.terminal_of_record htable hrecord with hsymbol | ⟨hnone, hlegal⟩
  · rw [isLegal_iff_isAscii (hname _ hsymbol)]
    simp [hsymbol]
  · simp [hnone, hlegal]

/-- All terminals of a text are legal exactly when every visible token that is called by a rule is called by one whose
name is in ASCII. Any other terminal is the name of the rule as it stands. -/
theorem isLegal_terminals_iff {source text : String} {log later : Log} {engine : Engine} {table : Substitutions}
    {records : List Record} (hengine : ((Engine.ofGrammar source).run log).1 = .ok engine) (htable : table.Built)
    (hrecords : ((Tokenizer.records ⟨engine, table⟩ text).run later).1 = .ok records) :
    ∃ g tokens, Grammar.parse source = .ok g ∧ engine.tokens text = .ok tokens ∧
      ((∀ r ∈ records, Terminal.isLegal r.terminal = true) ↔
        ∀ t ∈ tokens, t.isVisible = true → ∀ rule ∈ g.tokenRules,
          engine.vocabulary.symbol? t.category = some rule.name → IsAscii rule.name) ∧
      ∀ r ∈ records, Terminal.isLegal r.terminal = false →
        ∃ rule ∈ g.tokenRules, r.terminal = rule.name ∧ ¬IsAscii rule.name := by
  obtain ⟨lexer, hlexer, rfl⟩ := Engine.ofGrammar_eq_ok_iff.mp hengine
  obtain ⟨g, matchers, hg, haccepted, rfl⟩ := Grammar.lexerOfSource_eq_ok_iff.mp hlexer
  obtain ⟨tokens, htokens, hmap⟩ := Tokenizer.exists_tokens_of_records hrecords
  have hrule : ∀ t ∈ tokens, ∀ name, g.vocabulary.symbol? t.category = some name → ∃ rule ∈ g.tokenRules, rule.name = name :=
    fun t ht name hsymbol => Grammar.exists_rule_of_token haccepted.matchers_eq htokens ht hsymbol
  have hname : ∀ rule ∈ g.tokenRules, Grammar.IsName rule.name := fun rule hrule =>
    (Grammar.rulesWellFormed_of_parse hg rule ((List.mem_filter.mp hrule).1)).name.1
  have hsymbolName : ∀ t ∈ tokens, ∀ name, g.vocabulary.symbol? t.category = some name → Grammar.IsName name := by
    intro t ht name hsymbol
    obtain ⟨rule, hmem, rfl⟩ := hrule t ht name hsymbol
    exact hname rule hmem
  refine ⟨g, tokens, hg, htokens, ⟨?_, ?_⟩, ?_⟩
  · intro hlegal t ht hvisible rule _ hsymbol
    obtain ⟨r, hr, hrecord⟩ := Tokenizer.exists_record_of_mem hmap ht hvisible
    exact (isLegal_terminal_iff htable.legal hrecord (hsymbolName t ht)).mp (hlegal r hr) rule.name hsymbol
  · intro hascii r hr
    obtain ⟨t, ht, hvisible, hrecord⟩ := Tokenizer.exists_token_of_mem hmap hr
    refine (isLegal_terminal_iff htable.legal hrecord (hsymbolName t ht)).mpr fun name hsymbol => ?_
    obtain ⟨rule, hmem, rfl⟩ := hrule t ht name hsymbol
    exact hascii t ht hvisible rule hmem hsymbol
  · intro r hr hnot
    obtain ⟨t, ht, -, hrecord⟩ := Tokenizer.exists_token_of_mem hmap hr
    rcases Token.terminal_of_record htable.legal hrecord with hsymbol | ⟨-, hlegal⟩
    · obtain ⟨rule, hmem, hterminal⟩ := hrule t ht _ hsymbol
      refine ⟨rule, hmem, hterminal.symm, ?_⟩
      intro hascii
      rw [← hterminal, (isLegal_iff_isAscii (hname rule hmem)).mpr hascii] at hnot
      cases hnot
    · rw [hlegal] at hnot
      cases hnot

/-- The name of a rule can be a letter beyond ASCII, and then the terminal is that letter. -/
theorem isLegal_terminals_iff_accented :
    ∃ engine table records,
      ((Engine.ofGrammar "lexer grammar G; É : 'a' ;").run (Log.empty .error)).1 = .ok engine ∧
      Substitutions.Built table ∧
      ((Tokenizer.records ⟨engine, table⟩ "a").run (Log.empty .error)).1 = .ok records ∧
      records = [⟨"É", "a"⟩] ∧
      ∃ g tokens, Grammar.parse "lexer grammar G; É : 'a' ;" = .ok g ∧ engine.tokens "a" = .ok tokens ∧
        ((∀ r ∈ records, Terminal.isLegal r.terminal = true) ↔
          ∀ t ∈ tokens, t.isVisible = true → ∀ rule ∈ g.tokenRules,
            engine.vocabulary.symbol? t.category = some rule.name → IsAscii rule.name) ∧
        ∀ r ∈ records, Terminal.isLegal r.terminal = false →
          ∃ rule ∈ g.tokenRules, r.terminal = rule.name ∧ ¬IsAscii rule.name := by
  have hok : (match ((Grammar.lexerOfSource "lexer grammar G; É : 'a' ;").run (Log.empty .error)).1 with
    | .ok lexer => decide (lexer.vocabulary.symbol? 1 = some "É") &&
        decide (lexer.matchers.map (fun m => (m.category, m.action, m.pattern)) =
          [(1, .emit defaultChannel, .group (.literal ['a']))])
    | .error _ => false) = true := by decide +kernel
  split at hok
  · next lexer hlexer =>
    obtain ⟨hsymbol, hmatchers⟩ := Bool.and_eq_true_iff.mp hok
    obtain ⟨m, hm, hparts⟩ := List.map_eq_singleton_iff.mp (of_decide_eq_true hmatchers)
    obtain ⟨hcategory, haction, hpattern⟩ : m.category = 1 ∧ m.action = .emit defaultChannel ∧
        m.pattern = .group (.literal ['a']) := by simpa using hparts
    have hengine := Engine.ofGrammar_eq_ok_iff.mpr ⟨lexer, hlexer, rfl⟩
    have hmatch : m.matchLength? ['a'] = some 1 := by
      rw [Matcher.matchLength?, m.machine_eq, hpattern]
      cbv
    have htokens : (Engine.ofLexer lexer).tokens "a" = .ok [⟨"a", 1, defaultChannel, .start⟩] := by
      change Matcher.tokens lexer.matchers "a" = _
      rw [hm]
      refine (Matcher.tokens_eq_ok_iff (List.pairwise_singleton _ m)).mpr ⟨_, Matcher.munched_singleton (by simp) hmatch, ?_⟩
      simp [Segment.emitted, Segment.token?, Matcher.place, haction, hcategory]
    have hrecords : ((Tokenizer.records ⟨Engine.ofLexer lexer, ⟨[]⟩⟩ "a").run (Log.empty .error)).1 =
        .ok [⟨"É", "a"⟩] := by
      have hname : (Engine.ofLexer lexer).vocabulary.symbol? 1 = some "É" := of_decide_eq_true hsymbol
      rw [Tokenizer.records, htokens]
      dsimp only
      rw [List.filter_cons_of_pos rfl, List.filter_nil, Tokenizer.recordsFrom, if_neg (by decide), Token.classify, hname]
      rfl
    have htable : Substitutions.Built ⟨[]⟩ := .entries (Substitutions.ofEntries_of_legal (by simp))
    exact ⟨_, _, _, hengine, htable, hrecords, rfl, isLegal_terminals_iff hengine htable hrecords⟩
  · cases hok

end Lexeme
