import Lexeme.Pattern.Basic

/-!
# Lexer grammars

A grammar names the kinds of tokens of a language and says for each by a rule which texts belong to it. The body of a
rule consists of alternatives, an alternative of elements, and an element can refer to another rule. Fragments are
rules that only other rules use.
-/

namespace Lexeme

/-- A part of the body of a rule. -/
inductive Element where
  | literal (text : String)
  | set (negated : Bool) (items : List SetItem)
  | any
  | reference (name : String)
  | group (alternatives : List (List Element))
  | repeated (quantifier : Quantifier) (greedy : Bool) (element : Element)
deriving BEq, Repr, Inhabited

/-- What becomes of a text that a rule matches: a token on a channel, or nothing. -/
inductive Action where
  | emit (channel : Nat)
  | skip
deriving DecidableEq, Repr

/-- A lexer rule. `line` is the line of its name in the source. -/
structure Rule where
  name : String
  isFragment : Bool
  alternatives : List (List Element)
  action : Action
  line : Nat
deriving BEq, Repr

/-- The literal that is the whole body of the rule. A fragment stands for no literal. -/
def Rule.literal? (rule : Rule) : Option String :=
  match rule.alternatives with
  | [[.literal text]] => if rule.isFragment then none else some text
  | _ => none

/-- A grammar. The first declared channel has the number `firstChannel`; the parser literals are the distinct literals
of parser rules in the order of their first use. -/
structure Grammar where
  name : String
  declaredTokens : List String
  channels : List String
  parserLiterals : List String
  rules : List Rule
deriving BEq, Repr

namespace Grammar

/-- The number of the first declared channel. -/
def firstChannel : Nat := 2

/-- The rule of a name. -/
def rule? (g : Grammar) (name : String) : Option Rule :=
  g.rules.find? (·.name = name)

end Grammar

end Lexeme
