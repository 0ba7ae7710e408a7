import Lexeme.Json.Value
import Lexeme.Log.Basic
import Lexeme.Terminal
import Lexeme.Text.Quoted

/-!
# Substitutions

A literal that is not a legal terminal name is called by its substitute, which a table gives. A table is a JSON object
of texts; all its substitutes are legal names.
-/

namespace Lexeme

/-- The table: literals with their substitutes, one for each literal. -/
structure Substitutions where
  entries : List (String × String)
deriving DecidableEq, Repr

namespace Substitutions

/-- Where the table of a run lies, from the directory that the program is started in. -/
def defaultPath : String := "resources/name_substitutions.json"

/-- Why there is no table, or no substitute. -/
inductive Error where
  | notFound (path : String)
  | unreadable (path reason : String)
  | malformed (reason : String)
  | notText (literal : String)
  | illegalReplacement (literal replacement : String)
  | missingEntry (literal : String)
deriving DecidableEq, Repr

namespace Error

def message : Error → String
  | notFound path => s!"Substitution resource not found: {path}"
  | unreadable path reason => s!"Cannot read substitution resource {path}: {reason}"
  | malformed reason => s!"Malformed substitution resource: {reason}"
  | notText literal => s!"Substitution for {Text.quoted literal} is not a string"
  | illegalReplacement literal replacement =>
    s!"Replacement {Text.quoted replacement} for {Text.quoted literal} is not a legal identifier"
  | missingEntry literal => s!"No substitution entry for literal {Text.quoted literal}"

def code : Error → Log.ErrorCode
  | notFound _ => .tableNotFound
  | unreadable _ _ => .tableNotFound
  | malformed _ => .tableMalformed
  | notText _ => .tableMalformed
  | illegalReplacement _ _ => .illegalReplacement
  | missingEntry _ => .missingEntry

end Error

/-- The reason why a document that is not an object is no table. -/
def notAnObject : String := "top-level value must be a JSON object"

/-! ## Building a table -/

/-- The table with given entries, if all substitutes are legal. -/
def ofEntries (entries : List (String × String)) : Except Error Substitutions :=
  match entries.find? fun e => !Terminal.isLegal e.2 with
  | some (literal, replacement) => .error (.illegalReplacement literal replacement)
  | none => .ok ⟨entries⟩

theorem ofEntries_of_legal {entries : List (String × String)} (h : ∀ e ∈ entries, Terminal.isLegal e.2 = true) :
    ofEntries entries = .ok ⟨entries⟩ := by
  have hnone : entries.find? (fun e => !Terminal.isLegal e.2) = none :=
    List.find?_eq_none.mpr fun e he => by simp [h e he]
  simp [ofEntries, hnone]

/-- The text that a field of the table holds. -/
def entryText (field : String × Json) : Except Error (String × String) :=
  match field with
  | (literal, .string body) =>
    match Json.text? body with
    | some replacement => .ok (literal, replacement)
    | none => .error (.notText literal)
  | (literal, _) => .error (.notText literal)

/-- Reads a table. All values are checked for being texts before any is checked for being legal. -/
def ofJson (text : String) : Except Error Substitutions :=
  match Json.value? text with
  | none => .error (.malformed "not a JSON document")
  | some (.object fields) => do ofEntries (← (Json.entries fields).mapM entryText)
  | some _ => .error (.malformed notAnObject)

/-! ## Using a table -/

/-- The substitute of a literal. -/
def lookup? (table : Substitutions) (literal : String) : Option String :=
  (table.entries.find? (·.1 = literal)).map Prod.snd

/-- The substitute of a literal that has to have one. -/
def substituted (table : Substitutions) (literal : String) : Except Error String :=
  match table.lookup? literal with
  | some replacement => .ok replacement
  | none => .error (.missingEntry literal)

/-- The legal name of a literal: itself if it is legal, and else its substitute. -/
def normalized (table : Substitutions) (literal : String) : Except Error String :=
  if Terminal.isLegal literal then .ok literal else table.substituted literal

/-- Looks a substitute up and reports what is found. -/
def substitute (table : Substitutions) (literal : String) : Logged (Except Error String) := do
  match table.substituted literal with
  | .ok replacement =>
    Log.debug "Substituted literal" [("literal", literal), ("replacement", replacement)]
    return .ok replacement
  | .error e =>
    Log.error e.code "Literal has no substitution entry" [("literal", literal)]
    return .error e

/-- Finds the legal name of a literal. Only a literal that is not legal is looked up. -/
def normalize (table : Substitutions) (literal : String) : Logged (Except Error String) :=
  if Terminal.isLegal literal then pure (.ok literal) else table.substitute literal

/-- Reporting does not change what is found. -/
theorem substitute_run (table : Substitutions) (literal : String) (log : Log) :
    ((table.substitute literal).run log).1 = table.substituted literal := by
  unfold substitute
  cases table.substituted literal <;> rfl

theorem normalize_run (table : Substitutions) (literal : String) (log : Log) :
    ((table.normalize literal).run log).1 = table.normalized literal := by
  unfold normalize normalized
  split
  · rfl
  · exact substitute_run table literal log

end Substitutions

end Lexeme
