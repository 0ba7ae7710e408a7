import Lexeme.Files.Tree
import Lexeme.Substitutions

/-!
# Substitution tables in files
-/

namespace Lexeme.Substitutions

/-- What a failure means for the table at a path. -/
def Error.ofFailure (path : String) : Files.Failure → Error
  | .notFound => .notFound path
  | failure => .unreadable path failure.message

/-- The number of entries. -/
def size (table : Substitutions) : Nat := table.entries.length

/-- Loads the table at a path. -/
def load (t : Files.Tree) (path : String) : Logged (Except Error Substitutions) := do
  match t.readText path with
  | .error failure =>
    let error := Error.ofFailure path failure
    Log.error error.code "Failed to read substitution resource" [("path", path), ("error", failure.message)]
    return .error error
  | .ok text =>
    match ofJson text with
    | .error error =>
      Log.error error.code "Invalid substitution resource" [("path", path), ("error", error.message)]
      return .error error
    | .ok table =>
      Log.success .tableLoaded "Substitution table loaded" [("path", path), ("entries", toString table.size)]
      return .ok table

/-- Loads the table of a run. -/
def loadDefault (t : Files.Tree) : Logged (Except Error Substitutions) := load t defaultPath

end Lexeme.Substitutions
