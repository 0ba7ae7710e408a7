import Lexeme.Duration
import Lexeme.Files.Path
import Lexeme.Record
import Lexeme.Tokenizer

/-!
# Batches

A batch turns every file of a directory into a file of records in another directory. This module says how a batch is
set up, how its outputs are named, and what it results in.
-/

namespace Lexeme.Batch

/-- How a batch is run. An isolated failure is recorded, and the batch goes on. -/
structure Options where
  showProgress : Bool
  isolateFailures : Bool
  fileLimit : Nat
deriving DecidableEq, Repr

/-- A batch shows its progress, stops at the first failure, and takes at most 100000 files. -/
def Options.default : Options := ⟨true, false, 100000⟩

/-! ## Names -/

/-- The name of the output for the input at a path: the extension is replaced. -/
def outputName (input : String) : String :=
  Files.withExtension ((Files.fileName? input).getD "") "json"

/-- The path of the output for the input at a path. -/
def outputPath (input directory : String) : String := Files.join directory (outputName input)

/-- What the user sees about an input. -/
def progressLine (name : String) (count : Nat) : String :=
  s!"tokenizing : {name}\n# tokens   : {count}\n***"

/-! ## Results -/

/-- An output that has been written. -/
structure Outcome where
  input : String
  output : String
  count : Nat
deriving DecidableEq, Repr

structure Results where
  completed : List Outcome
  failed : List (String × TokenizingError)
  discovered : Nat
  duration : Duration
deriving Repr

namespace Results

def successCount (r : Results) : Nat := r.completed.length

def failureCount (r : Results) : Nat := r.failed.length

/-- The number of records in all outputs. -/
def total (r : Results) : Nat := r.completed.foldl (· + ·.count) 0

def summary (r : Results) : String :=
  s!"Batch completed: {r.discovered} files discovered, {r.successCount} written, {r.failureCount} failed, " ++
    s!"{r.total} tokens, {r.duration.inSeconds.twoPlaces}s total"

end Results

/-- Why a batch ends early. In a tree every directory can be listed, and records can always be rendered: `directoryRead` and
`serialization` are what other file systems and other records would lead to. -/
inductive Error where
  | directoryNotFound (path : String)
  | directoryRead (path reason : String)
  | tooManyFiles (count limit : Nat)
  | serialization (path reason : String)
  | outputWrite (path reason : String)
  | file (path : String) (cause : TokenizingError)
deriving DecidableEq, Repr

namespace Error

def message : Error → String
  | directoryNotFound path => s!"Directory not found: {path}"
  | directoryRead path reason => s!"Cannot list directory {path}: {reason}"
  | tooManyFiles count limit => s!"Too many files found: {count} (max: {limit})"
  | serialization path reason => s!"Cannot serialize tokens for {path}: {reason}"
  | outputWrite path reason => s!"Cannot write {path}: {reason}"
  | file path cause => s!"Failed to tokenize {path}: {cause.message}"

def code : Error → Log.ErrorCode
  | directoryNotFound _ => .directoryNotFound
  | directoryRead _ _ => .directoryRead
  | tooManyFiles _ _ => .tooManyFiles
  | serialization _ _ => .serialization
  | outputWrite _ _ => .outputWrite
  | file _ cause => cause.code

end Error

end Lexeme.Batch
