import Lexeme.Log.Code
import Lexeme.Position
import Lexeme.Text.Quoted

/-!
# Tokens

A token is a piece of the source text with its category, the channel that it is on, and the position where it begins.
Only tokens on the default channel are seen by the reader of the output.
-/

namespace Lexeme

/-- The channel of tokens that are seen. -/
def defaultChannel : Nat := 0

/-- The channel of tokens that are kept but not seen. -/
def hiddenChannel : Nat := 1

structure Token where
  text : String
  category : Nat
  channel : Nat
  position : Position
deriving DecidableEq, Repr

/-- Whether the token is on the default channel. -/
def Token.isVisible (t : Token) : Bool := t.channel = defaultChannel

/-- What can go wrong while a text is cut into tokens. -/
inductive LexingError where
  | noViableAlternative (position : Position) (text : String)
  | unterminatedString (position : Position)
  | inconsistentDedent (position : Position)
  | tooManyTokens (limit : Nat)
deriving DecidableEq, Repr

namespace LexingError

/-- Where it went wrong. -/
def position? : LexingError → Option Position
  | noViableAlternative p _ => some p
  | unterminatedString p => some p
  | inconsistentDedent p => some p
  | tooManyTokens _ => none

def message : LexingError → String
  | noViableAlternative p text => s!"No viable alternative at {p}: {Text.quoted text}"
  | unterminatedString p => s!"Unterminated string literal starting at {p}"
  | inconsistentDedent p => s!"Unindent at {p} does not match any outer indentation level"
  | tooManyTokens limit => s!"Too many tokens: more than {limit}"

def code : LexingError → Log.ErrorCode
  | noViableAlternative _ _ => .noViableAlternative
  | unterminatedString _ => .unterminatedString
  | inconsistentDedent _ => .inconsistentDedent
  | tooManyTokens _ => .tooManyTokens

end LexingError

end Lexeme
