import Lexeme.Grammar.Expand
import Lexeme.Grammar.Source
import Lexeme.Matcher
import Lexeme.Pattern.Footprint
import Lexeme.Vocabulary

/-!
# Lexers from grammars

The categories of a grammar are numbered in three groups: the declared tokens that no rule describes, the literals of
the parser that no rule stands for, and the rules that are not fragments. Each category of the last two groups has a
matcher, in the same order, so that of two matches of one length the one of the lower category wins.
-/

namespace Lexeme.Grammar

/-- A grammar has at most this many rules, with the literals that no rule stands for. -/
def ruleLimit : Nat := 4096

/-- The literals that rules stand for. -/
def aliases (g : Grammar) : List String := g.rules.filterMap Rule.literal?

/-- The literals of the parser that no rule stands for. -/
def implicitLiterals (g : Grammar) : List String :=
  let aliases := g.aliases
  g.parserLiterals.filter (· ∉ aliases)

/-- The declared tokens that no rule describes. -/
def bareTokens (g : Grammar) : List String :=
  g.declaredTokens.filter fun name => (g.rule? name).isNone

/-- The rules that make tokens. -/
def tokenRules (g : Grammar) : List Rule := g.rules.filter (!·.isFragment)

/-- What the categories are called. -/
def vocabulary (g : Grammar) : Vocabulary :=
  Vocabulary.empty.defineAll <|
    g.bareTokens.map (fun name => ⟨none, some name⟩) ++
    g.implicitLiterals.map (fun literal => ⟨some literal, none⟩) ++
    g.tokenRules.map (fun rule => ⟨rule.literal?, some rule.name⟩)

/-- The rules with their patterns, if all references can be replaced. -/
def patterns (g : Grammar) : Except Error (List (Rule × Pattern)) :=
  ((g.rules.mapM fun rule => return (rule, ← findRule g [] rule.name) : Expander _).run []).1

/-- What a matcher is made of: its label, its action and its pattern. -/
abbrev Recipe := String × Action × Pattern

/-- The matchers that have to be made, in the order of their categories. -/
def recipes (g : Grammar) (patterns : List (Rule × Pattern)) : List Recipe :=
  g.implicitLiterals.map (fun literal => (literal, .emit defaultChannel, .literal literal.toList)) ++
  (patterns.filter (!·.1.isFragment)).map fun (rule, pattern) => (rule.name, rule.action, pattern)

/-- Makes matchers for ascending categories. -/
def matchersFrom (category : Nat) : List Recipe → List Matcher
  | [] => []
  | (label, action, pattern) :: rest => .ofPattern label category action pattern :: matchersFrom (category + 1) rest

/-- The matchers of the grammar, also those that have to be refused. -/
def matchers (g : Grammar) : Except Error (List Matcher) := do
  return matchersFrom (g.bareTokens.length + 1) (g.recipes (← g.patterns))

/-- A lexer for the language of a grammar. -/
structure Lexer where
  title : String
  vocabulary : Vocabulary
  matchers : List Matcher

/-- The tokens of a text. -/
def Lexer.tokens (lexer : Lexer) (source : String) : Except LexingError (List Token) :=
  Matcher.tokens lexer.matchers source

/-- Why a matcher is refused, if it is. -/
def refusal? (m : Matcher) : Option String :=
  if m.pattern.isTooDeep then some "nested too deep"
  else if m.pattern.isTooLarge then some "too large"
  else none

/-- Goes through matchers up to the first that is refused, and reports those before it. -/
def findRefused (matchers : List Matcher) : Logged (Option Error) := do
  match matchers with
  | [] => return none
  | m :: rest =>
    match refusal? m with
    | some reason => return some (.invalidPattern m.label reason)
    | none =>
      Log.debug "Compiled token rule" [("rule", m.label), ("category", toString m.category),
        ("non_greedy", toString m.pattern.isLazy)]
      findRefused rest

/-- Makes the lexer from its matchers. Matchers that are accepted one by one can still be too large together. -/
def assemble (g : Grammar) (matchers : List Matcher) : Logged (Except Error Lexer) := do
  match ← findRefused matchers with
  | some error => return .error error
  | none =>
    if Pattern.areTooLarge (matchers.map Matcher.pattern) then
      return .error (.invalidPattern g.name "too large together")
    else
      let vocabulary := g.vocabulary
      Log.info "Grammar compiled" [("grammar", g.name), ("token_types", toString vocabulary.maxCategory),
        ("matchers", toString matchers.length)]
      return .ok ⟨s!"grammar {g.name}", vocabulary, matchers⟩

/-- The lexer of a grammar. -/
def lexer (g : Grammar) : Logged (Except Error Lexer) :=
  let count := g.implicitLiterals.length + g.rules.length
  if ruleLimit < count then return .error (.tooManyRules count ruleLimit)
  else
    match g.matchers with
    | .error e => return .error e
    | .ok matchers => g.assemble matchers

/-- The lexer of a grammar source. -/
def lexerOfSource (source : String) : Logged (Except Error Lexer) := do
  match ← load source with
  | .error e => return .error e
  | .ok g => g.lexer

end Lexeme.Grammar
