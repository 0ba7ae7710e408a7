import Lexeme.Token
import Lexeme.Vocabulary

/-!
# Kinds of Python tokens

Keywords and operators are anonymous: their category has a literal and no symbol. They are numbered first, in the
order of their lists, and the named kinds follow. The name `INTEGER` is defined but no token has it, since integers
are numbers.
-/

namespace Lexeme.Python

def keywords : List String :=
  ["def", "return", "raise", "from", "import", "as", "global", "nonlocal", "assert", "if", "elif", "else", "while",
    "for", "in", "try", "finally", "with", "except", "lambda", "or", "and", "not", "is", "None", "True", "False",
    "class", "yield", "del", "pass", "continue", "break", "async", "await"]

def operators : List String :=
  [".", "...", "*", "(", ")", ",", ":", ";", "**", "=", "[", "]", "|", "^", "&", "<<", ">>", "+", "-", "/", "%", "//",
    "~", "\x7b", "\x7d", "<", ">", "==", ">=", "<=", "<>", "!=", "@", "->", "+=", "-=", "*=", "@=", "/=", "%=", "&=",
    "|=", "^=", "<<=", ">>=", "**=", "//=", ":="]

def symbols : List String :=
  ["STRING", "NUMBER", "INTEGER", "NAME", "NEWLINE", "INDENT", "DEDENT", "SKIP_", "COMMENT"]

/-- What a segment of a Python text is. Keywords and operators are given by their place in the list. -/
inductive Kind where
  | keyword (index : Nat)
  | operator (index : Nat)
  | string
  | number
  | name
  | newline
  | indent
  | dedent
  | skip
  | comment
deriving DecidableEq, Repr

namespace Kind

/-- The category of the first named kind. -/
def firstSymbol : Nat := keywords.length + operators.length + 1

def category : Kind → Nat
  | keyword index => index + 1
  | operator index => keywords.length + index + 1
  | string => firstSymbol
  | number => firstSymbol + 1
  | name => firstSymbol + 3
  | newline => firstSymbol + 4
  | indent => firstSymbol + 5
  | dedent => firstSymbol + 6
  | skip => firstSymbol + 7
  | comment => firstSymbol + 8

/-- Blanks and comments are kept but not seen. -/
def channel : Kind → Nat
  | skip => hiddenChannel
  | comment => hiddenChannel
  | _ => defaultChannel

/-- Where the tokens of a kind go. No kind is dropped. -/
def place (kind : Kind) : Option (Nat × Nat) := some (kind.category, kind.channel)

end Kind

/-- The names of all kinds, in the order of their categories. -/
def vocabulary : Vocabulary :=
  Vocabulary.empty.defineAll <|
    keywords.map (fun k => ⟨some k, none⟩) ++ operators.map (fun o => ⟨some o, none⟩) ++
      symbols.map fun s => ⟨none, some s⟩

end Lexeme.Python
