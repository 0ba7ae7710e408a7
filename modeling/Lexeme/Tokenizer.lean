import Lexeme.Engine
import Lexeme.Record
import Lexeme.Substitutions

/-!
# From texts to records

A text is cut into tokens, and every visible token becomes a record. A token whose category has a symbol is called by
it. Any other is called by its own literal, or by the substitute of the literal if that is not a legal name.
-/

namespace Lexeme

namespace Token

/-- The terminal of a token. -/
def terminal (v : Vocabulary) (table : Substitutions) (t : Token) : Except Substitutions.Error String :=
  match v.symbol? t.category with
  | some symbol => .ok symbol
  | none => (table.normalized t.text).map Terminal.ofLiteral

/-- The record of a token. -/
def record (v : Vocabulary) (table : Substitutions) (t : Token) : Except Substitutions.Error Record :=
  (t.terminal v table).map fun terminal => ⟨terminal, t.text⟩

/-- Finds the record of a token and reports what is looked up. -/
def classify (v : Vocabulary) (table : Substitutions) (t : Token) : Logged (Except Substitutions.Error Record) := do
  match v.symbol? t.category with
  | some symbol => return .ok ⟨symbol, t.text⟩
  | none =>
    match ← table.normalize t.text with
    | .ok name => return .ok ⟨Terminal.ofLiteral name, t.text⟩
    | .error e => return .error e

/-- Reporting does not change what is found. -/
theorem classify_run (v : Vocabulary) (table : Substitutions) (t : Token) (log : Log) :
    ((t.classify v table).run log).1 = t.record v table := by
  unfold classify record terminal
  cases v.symbol? t.category with
  | some => rfl
  | none =>
    cases hrun : (table.normalize t.text) log with
    | mk found after =>
      have hfound : found = table.normalized t.text := by
        rw [← table.normalize_run t.text log]
        exact (congrArg Prod.fst hrun).symm
      simp only [StateT.run, bind, StateT.bind, hrun, ← hfound]
      cases found <;> rfl

end Token

/-- Why a text has no records. -/
inductive TokenizingError where
  | input (cause : Files.ReadError)
  | lexing (cause : LexingError)
  | substitution (cause : Substitutions.Error)
deriving DecidableEq, Repr

namespace TokenizingError

def message : TokenizingError → String
  | input cause => cause.message
  | lexing cause => cause.message
  | substitution cause => cause.message

def code : TokenizingError → Log.ErrorCode
  | input cause => cause.code
  | lexing cause => cause.code
  | substitution cause => cause.code

/-- Whether no later input can be trusted either: the table lacks an entry. -/
def isFatal : TokenizingError → Bool
  | substitution _ => true
  | _ => false

end TokenizingError

/-- What turns texts into records. -/
structure Tokenizer where
  engine : Engine
  table : Substitutions

namespace Tokenizer

/-- A text has at most this many records. -/
def recordLimit : Nat := 1000000

/-- Finds the records of visible tokens after `done`, which stand last first and are `count` in number. -/
def recordsFrom (t : Tokenizer) (count : Nat) (done : List Record) :
    List Token → Logged (Except TokenizingError (List Record))
  | [] => return .ok done.reverse
  | token :: rest => do
    if recordLimit ≤ count then
      let error := LexingError.tooManyTokens recordLimit
      Log.errorAt token.position error.code "Token limit exceeded" [("max", toString recordLimit)]
      return .error (.lexing error)
    else
      match ← token.classify t.engine.vocabulary t.table with
      | .error e =>
        Log.debug "Classification aborted" [("position", toString token.position)]
        return .error (.substitution e)
      | .ok record => recordsFrom t (count + 1) (record :: done) rest

/-- Finds the records of a text. -/
def records (t : Tokenizer) (text : String) : Logged (Except TokenizingError (List Record)) := do
  match t.engine.tokens text with
  | .error e =>
    Log.error e.code "Lexing failed" [("error", e.message)]
    return .error (.lexing e)
  | .ok tokens =>
    match ← t.recordsFrom 0 [] (tokens.filter Token.isVisible) with
    | .error e => return .error e
    | .ok records =>
      Log.success .tokenized "Tokenization completed"
        [("tokens", toString records.length), ("hidden", toString (tokens.length - records.length))]
      return .ok records

/-- Finds the records of a file. -/
def fileRecords (t : Tokenizer) (files : Files.Tree) (path : String) :
    Logged (Except TokenizingError (List Record)) := do
  match ← Files.readInput files path with
  | .error e => return .error (.input e)
  | .ok source => t.records source.content

end Tokenizer

end Lexeme
