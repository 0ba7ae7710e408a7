import Lexeme.Log.Code
import Lexeme.Position
import Lexeme.Text.Quoted

/-!
# What can be wrong with a grammar

A `Fault` is a place where the source does not follow the notation of grammars, or uses a part of the notation that is
not supported. An `Error` is what is reported about a grammar as a whole.
-/

namespace Lexeme.Grammar

inductive Error where
  | malformed (line column : Nat) (reason : String)
  | undefinedRule (rule reference : String)
  | unknownChannel (rule channel : String)
  | recursiveRule (rule path : String)
  | invalidPattern (rule reason : String)
  | unsupported (construct : String) (line : Nat)
  | tooManyRules (count limit : Nat)
deriving DecidableEq, Repr

namespace Error

def message : Error → String
  | malformed line column reason => s!"Grammar syntax error at {line}:{column}: {reason}"
  | undefinedRule rule reference => s!"Rule {rule} references undefined rule {reference}"
  | unknownChannel rule channel => s!"Rule {rule} references channel {channel}, which is not declared"
  | recursiveRule rule path => s!"Rule {rule} is recursive through {path}"
  | invalidPattern rule reason => s!"Rule {rule} cannot be compiled: {reason}"
  | unsupported construct line => s!"Unsupported grammar construct at line {line}: {construct}"
  | tooManyRules count limit => s!"Too many token rules: {count} (max {limit})"

def code : Error → Log.ErrorCode
  | malformed _ _ _ => .grammarMalformed
  | undefinedRule _ _ => .undefinedRule
  | unknownChannel _ _ => .undefinedRule
  | recursiveRule _ _ => .recursiveRule
  | invalidPattern _ _ => .invalidPattern
  | unsupported _ _ => .unsupported
  | tooManyRules _ _ => .tooManyRules

end Error

inductive Fault where
  | unterminatedComment
  | unterminatedLiteral
  | unterminatedSet
  | unterminatedAction
  | unterminatedEscape
  | invalidEscape (c : Char)
  | malformedBracedEscape
  | shortEscape
  | invalidCodePoint (digits : String)
  | reversedRange (low high : Char)
  | emptySet
  | integerOutOfRange
  | unexpectedCharacter (c : Char)
  | expectedDeclaration
  | expectedIdentifier
  | expected (what : String)
  | expectedRule
  | expectedBlock (owner : String)
  | invalidName (name : String)
  | ruleOfParser
  | missingSemicolon (rule : String)
  | lowercaseRule
  | unfinishedRule (rule : String)
  | unknownCommand (command : String)
  | expectedChannel
  | emptyLiteral
  | expectedRangeEnd
  | invalidRangeBounds
  | referenceToParserRule (rule : String)
  | invalidComplement
  | innerCommand
  | expectedElement
  | redefinedRule (rule : String)
  | unsupported (construct : String)
deriving DecidableEq, Repr

namespace Fault

def reason : Fault → String
  | unterminatedComment => "unterminated comment"
  | unterminatedLiteral => "unterminated string literal"
  | unterminatedSet => "unterminated character set"
  | unterminatedAction => "unterminated action block"
  | unterminatedEscape => "unterminated escape sequence"
  | invalidEscape c => s!"invalid escape sequence '\\{c}'"
  | malformedBracedEscape => "malformed \\u\x7b...\x7d escape"
  | shortEscape => "\\u escape needs four hex digits"
  | invalidCodePoint digits => s!"invalid code point U+{digits}"
  | reversedRange low high => s!"reversed range {low}-{high}"
  | emptySet => "empty character set"
  | integerOutOfRange => "integer out of range"
  | unexpectedCharacter c => s!"unexpected character {Text.quotedChar c}"
  | expectedDeclaration => "expected grammar declaration"
  | expectedIdentifier => "expected identifier"
  | expected what => s!"expected {what}"
  | expectedRule => "expected a rule"
  | expectedBlock owner => s!"expected '\x7b' after {owner}"
  | invalidName name => s!"invalid name {Text.quoted name}"
  | ruleOfParser => "parser rule in a lexer grammar"
  | missingSemicolon rule => s!"rule {rule} is missing ';'"
  | lowercaseRule => "lexer rule names start with an uppercase letter"
  | unfinishedRule rule => s!"expected '|' or ';' in rule {rule}"
  | unknownCommand command => s!"unknown lexer command '{command}'"
  | expectedChannel => "expected channel name or number"
  | emptyLiteral => "empty string literal"
  | expectedRangeEnd => "expected literal after '..'"
  | invalidRangeBounds => "range bounds must be single characters"
  | referenceToParserRule rule => s!"parser rule reference '{rule}' in lexer rule"
  | invalidComplement => "'~' applies only to character sets"
  | innerCommand => "lexer commands must end an outer alternative"
  | expectedElement => "expected a lexer element"
  | redefinedRule rule => s!"rule {rule} redefined"
  | unsupported construct => construct

/-- The error that a fault at a position is. -/
def error (p : Position) : Fault → Error
  | unsupported construct => .unsupported construct p.line
  | fault => .malformed p.line p.column fault.reason

end Fault

end Lexeme.Grammar
