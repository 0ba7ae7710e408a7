/-!
# Terminal names

A terminal names a kind of token in the output and has to be safe as an identifier: it consists of ASCII letters,
ASCII digits and underscores.
-/

namespace Lexeme.Terminal

/-- Whether a character may stand in a terminal name. -/
def isLegalChar (c : Char) : Bool :=
  c.isAlphanum || c = '_'

/-- Whether a text may be a terminal name. The empty text may. -/
def isLegal (s : String) : Bool :=
  s.toList.all isLegalChar

/-- What a terminal name begins with that is made from the text of a token. -/
def literalMark : String := "Lit_"

/-- The terminal name that is made from a legal text. -/
def ofLiteral (name : String) : String := literalMark ++ name

theorem isLegal_append {s t : String} : isLegal (s ++ t) = (isLegal s && isLegal t) := by
  simp [isLegal]

theorem isLegal_ofLiteral {name : String} : isLegal (ofLiteral name) = isLegal name := by
  simp [ofLiteral, isLegal_append, literalMark, show isLegal "Lit_" = true by decide]

end Lexeme.Terminal
