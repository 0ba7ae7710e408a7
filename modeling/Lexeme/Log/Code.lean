/-!
# Codes of reported events

Every error that a run can report has a code, and so has every stage that it completes. A code of an error says which
part of the program it concerns, how grave it is, and what to do about it. Codes are written in events as text, and a
text that is no known code has a neutral profile.
-/

namespace Lexeme.Log

/-- How grave an error is. -/
inductive Severity where
  | critical
  | high
  | medium
  | low
deriving DecidableEq, Repr

namespace Severity

def name : Severity → String
  | critical => "Critical"
  | high => "High"
  | medium => "Medium"
  | low => "Low"

/-- The place in the order of gravity, the gravest first. -/
def rank : Severity → Nat
  | critical => 0
  | high => 1
  | medium => 2
  | low => 3

end Severity

/-- The part of the program that an error concerns. -/
inductive Area where
  | system
  | configuration
  | files
  | grammar
  | lexing
  | output
  | batch
deriving DecidableEq, Repr

namespace Area

def name : Area → String
  | system => "System"
  | configuration => "Configuration"
  | files => "FileProcessing"
  | grammar => "Grammar"
  | lexing => "Lexical"
  | output => "Output"
  | batch => "Batch"

/-- Errors of one input are less grave than those that concern the whole run. -/
def severity : Area → Severity
  | files => .high
  | lexing => .high
  | _ => .critical

end Area

/-- The errors that a run can report. -/
inductive ErrorCode where
  | internal
  | initialization
  | tableNotFound
  | tableMalformed
  | missingEntry
  | illegalReplacement
  | fileNotFound
  | fileTooLarge
  | permissionDenied
  | invalidEncoding
  | unreadable
  | grammarMalformed
  | undefinedRule
  | recursiveRule
  | invalidPattern
  | unsupported
  | tooManyRules
  | noViableAlternative
  | unterminatedString
  | inconsistentDedent
  | tooManyTokens
  | outputWrite
  | serialization
  | directoryNotFound
  | directoryRead
  | tooManyFiles
deriving DecidableEq, Repr

namespace ErrorCode

def all : List ErrorCode :=
  [internal, initialization, tableNotFound, tableMalformed, missingEntry, illegalReplacement, fileNotFound,
    fileTooLarge, permissionDenied, invalidEncoding, unreadable, grammarMalformed, undefinedRule, recursiveRule,
    invalidPattern, unsupported, tooManyRules, noViableAlternative, unterminatedString, inconsistentDedent,
    tooManyTokens, outputWrite, serialization, directoryNotFound, directoryRead, tooManyFiles]

/-- The code as written in events. -/
def id : ErrorCode → String
  | internal => "ERR001"
  | initialization => "ERR002"
  | tableNotFound => "E001"
  | tableMalformed => "E002"
  | missingEntry => "E003"
  | illegalReplacement => "E004"
  | fileNotFound => "E010"
  | fileTooLarge => "E011"
  | permissionDenied => "E012"
  | invalidEncoding => "E013"
  | unreadable => "E014"
  | grammarMalformed => "E030"
  | undefinedRule => "E031"
  | recursiveRule => "E032"
  | invalidPattern => "E033"
  | unsupported => "E034"
  | tooManyRules => "E035"
  | noViableAlternative => "E040"
  | unterminatedString => "E041"
  | inconsistentDedent => "E042"
  | tooManyTokens => "E043"
  | outputWrite => "E060"
  | serialization => "E061"
  | directoryNotFound => "E070"
  | directoryRead => "E071"
  | tooManyFiles => "E072"

def area : ErrorCode → Area
  | internal | initialization => .system
  | tableNotFound | tableMalformed | missingEntry | illegalReplacement => .configuration
  | fileNotFound | fileTooLarge | permissionDenied | invalidEncoding | unreadable => .files
  | grammarMalformed | undefinedRule | recursiveRule | invalidPattern | unsupported | tooManyRules => .grammar
  | noViableAlternative | unterminatedString | inconsistentDedent | tooManyTokens => .lexing
  | outputWrite | serialization => .output
  | directoryNotFound | directoryRead | tooManyFiles => .batch

def description : ErrorCode → String
  | internal => "Critical internal error"
  | initialization => "System initialization failure"
  | tableNotFound => "Name substitution resource not found"
  | tableMalformed => "Name substitution resource is not a JSON object of strings"
  | missingEntry => "Literal is not identifier-safe and has no substitution entry"
  | illegalReplacement => "Substitution replacement is not identifier-safe"
  | fileNotFound => "Input file not found at specified path"
  | fileTooLarge => "Input file exceeds maximum size limit"
  | permissionDenied => "Permission denied reading file"
  | invalidEncoding => "Input file is not valid UTF-8"
  | unreadable => "I/O error reading file"
  | grammarMalformed => "Grammar source could not be parsed"
  | undefinedRule => "Lexer rule references an undefined rule"
  | recursiveRule => "Lexer rule references itself"
  | invalidPattern => "Lexer rule compiles to an invalid pattern"
  | unsupported => "Grammar uses an unsupported construct"
  | tooManyRules => "Grammar defines too many rules"
  | noViableAlternative => "No lexer rule matches the input"
  | unterminatedString => "Unterminated string literal"
  | inconsistentDedent => "Dedent does not match any outer indentation level"
  | tooManyTokens => "Input produces too many tokens"
  | outputWrite => "Output artifact could not be written"
  | serialization => "Token records could not be serialized"
  | directoryNotFound => "Input directory not found"
  | directoryRead => "Input directory could not be listed"
  | tooManyFiles => "Input directory holds more entries than the batch limit"

/-- What the user can do about the error. -/
def action : ErrorCode → String
  | internal => "File a bug report with the failing input"
  | initialization => "Check logging configuration and environment"
  | tableNotFound => "Run from the directory containing resources/name_substitutions.json"
  | tableMalformed => "Fix the JSON syntax of the substitution resource"
  | missingEntry => "Add an entry for the literal to the substitution resource"
  | illegalReplacement => "Use only [A-Za-z0-9_] in replacement names"
  | fileNotFound => "Check that the input directory is not modified during the run"
  | fileTooLarge => "Split the input or rebuild with a larger limit"
  | permissionDenied => "Check file permissions"
  | invalidEncoding => "Convert the file to UTF-8"
  | unreadable => "Check the filesystem and retry"
  | grammarMalformed => "Fix the grammar syntax at the reported position"
  | undefinedRule => "Define the referenced rule or fix its name"
  | recursiveRule => "Rewrite the rule without recursion"
  | invalidPattern => "Simplify the rule"
  | unsupported => "Remove modes, imports, predicates or unsupported lexer commands"
  | tooManyRules => "Reduce the number of rules or rebuild with a larger limit"
  | noViableAlternative => "Check the input against the grammar"
  | unterminatedString => "Close the string literal"
  | inconsistentDedent => "Fix the indentation of the reported line"
  | tooManyTokens => "Split the input or rebuild with a larger limit"
  | outputWrite => "Check that the output directory exists and is writable"
  | serialization => "File a bug report with the failing input"
  | directoryNotFound => "Check the input directory argument"
  | directoryRead => "Check directory permissions"
  | tooManyFiles => "Split the input directory"

/-- The error that a text is the code of. -/
def ofId? (text : String) : Option ErrorCode :=
  all.find? (·.id = text)

end ErrorCode

/-- The stages that a run reports as completed. -/
inductive Milestone where
  | started
  | tableLoaded
  | engineReady
  | fileRead
  | tokenized
  | artifactWritten
  | batchCompleted
deriving DecidableEq, Repr

/-- The code as written in events. -/
def Milestone.id : Milestone → String
  | started => "I001"
  | tableLoaded => "I002"
  | engineReady => "I003"
  | fileRead => "I010"
  | tokenized => "I020"
  | artifactWritten => "I060"
  | batchCompleted => "I070"

/-- What is known about a code. -/
structure Profile where
  area : String
  severity : Severity
  recoverable : Bool
  requiresHalt : Bool
  description : String
  action : String
deriving DecidableEq, Repr

/-- The profile of a code. Every known error halts the run; of any other text nothing is known. -/
def profile (code : String) : Profile :=
  match ErrorCode.ofId? code with
  | some c => ⟨c.area.name, c.area.severity, false, true, c.description, c.action⟩
  | none => ⟨"Unknown", .medium, true, false, "Unknown error", "No specific action available"⟩

end Lexeme.Log
