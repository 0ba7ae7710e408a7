import Lexeme.Json.Quoted
import Lexeme.Substitutions

/-!
# The standard substitutions

The table that the program is delivered with. It has a substitute for every operator of Python and for some more.
-/

namespace Lexeme.Substitutions

/-- The entries of the standard table, in the order of its document. -/
def standardEntries : List (String × String) :=
  [("(", "LPAR"), (")", "RPAR"), ("[", "LSQB"), ("]", "RSQB"), ("\x7b", "LBRACE"), ("\x7d", "RBRACE"),
    (":", "COLON"), (",", "COMMA"), (";", "SEMI"), (".", "DOT"), ("...", "ELLIPSIS"), ("+", "PLUS"), ("-", "MINUS"),
    ("*", "STAR"), ("/", "SLASH"), ("%", "PERCENT"), ("|", "VBAR"), ("&", "AMPER"), ("^", "CIRCUMFLEX"),
    ("~", "TILDE"), ("@", "AT"), ("<", "LESS"), (">", "GREATER"), ("=", "EQUAL"), ("==", "EQEQUAL"),
    ("!=", "NOTEQUAL"), ("<>", "LESSGREATER"), ("<=", "LESSEQUAL"), (">=", "GREATEREQUAL"), ("<<", "LEFTSHIFT"),
    (">>", "RIGHTSHIFT"), ("**", "DOUBLESTAR"), ("//", "DOUBLESLASH"), ("->", "RARROW"), (":=", "COLONEQUAL"),
    ("+=", "PLUSEQUAL"), ("-=", "MINEQUAL"), ("*=", "STAREQUAL"), ("/=", "SLASHEQUAL"), ("%=", "PERCENTEQUAL"),
    ("&=", "AMPEREQUAL"), ("|=", "VBAREQUAL"), ("^=", "CIRCUMFLEXEQUAL"), ("@=", "ATEQUAL"),
    ("<<=", "LEFTSHIFTEQUAL"), (">>=", "RIGHTSHIFTEQUAL"), ("**=", "DOUBLESTAREQUAL"), ("//=", "DOUBLESLASHEQUAL"),
    ("!", "BANG"), ("?", "QUESTION"), ("$", "DOLLAR"), ("#", "HASH"), ("&&", "AMPERAMPER"), ("||", "VBARVBAR"),
    ("::", "COLONCOLON"), ("=>", "FATARROW")]

/-- The line of an entry in a document. -/
def entryLine (entry : String × String) : String :=
  "    " ++ Json.quote entry.1 ++ ": " ++ Json.quote entry.2

/-- The document of the standard table. -/
def standardDocument : String :=
  "\x7b\n" ++ ",\n".intercalate (standardEntries.map entryLine) ++ "\n\x7d\n"

/-- The standard table. -/
def standard : Substitutions := ⟨standardEntries⟩

/-- All its substitutes are legal. -/
theorem ofEntries_standardEntries : ofEntries standardEntries = .ok standard :=
  ofEntries_of_legal (by decide +kernel)

end Lexeme.Substitutions
