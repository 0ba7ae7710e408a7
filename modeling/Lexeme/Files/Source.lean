import Lexeme.Files.Tree
import Lexeme.Log.Basic
import Lexeme.Text.Lines

/-!
# Source files

A source file is read as a whole, as text, and only up to a size. The size is checked before the content is read.
-/

namespace Lexeme.Files

/-- Inputs take at most this many bytes. -/
def inputLimit : Nat := 10485760

/-- Grammars take at most this many bytes. -/
def grammarLimit : Nat := 1048576

/-- Files of more bytes are worth a warning. -/
def largeSize : Nat := 1048576

/-- Why a source cannot be read. Trees know no permissions: `permissionDenied` is what other file systems would lead to. -/
inductive ReadError where
  | fileNotFound (path : String)
  | notAFile (path : String)
  | tooLarge (path : String) (size limit : Nat)
  | permissionDenied (path : String)
  | invalidEncoding (path : String)
  | unreadable (path reason : String)
deriving DecidableEq, Repr

namespace ReadError

def message : ReadError → String
  | fileNotFound path => s!"File not found: {path}"
  | notAFile path => s!"Not a regular file: {path}"
  | tooLarge path size limit => s!"File too large: {path} is {size} bytes (max: {limit})"
  | permissionDenied path => s!"Permission denied: {path}"
  | invalidEncoding path => s!"Invalid UTF-8 encoding in file: {path}"
  | unreadable path reason => s!"I/O error reading {path}: {reason}"

def code : ReadError → Log.ErrorCode
  | fileNotFound _ => .fileNotFound
  | notAFile _ => .unreadable
  | tooLarge _ _ _ => .fileTooLarge
  | permissionDenied _ => .permissionDenied
  | invalidEncoding _ => .invalidEncoding
  | unreadable _ _ => .unreadable

/-- What a failure means for reading a path. -/
def ofFailure (path : String) : Failure → ReadError
  | .notFound => fileNotFound path
  | .notText => invalidEncoding path
  | failure => unreadable path failure.message

end ReadError

/-- A file that has been read. -/
structure Source where
  path : String
  size : Nat
  content : String
deriving DecidableEq, Repr

namespace Source

def extension? (s : Source) : Option String := Files.extension? s.path

def lineCount (s : Source) : Nat := Text.lineCount s.content

def isLarge (s : Source) : Bool := largeSize < s.size

end Source

/-- Reports an error in reading a path and gives it. -/
def refuse {α : Type} (path message : String) (error : ReadError) (details : List (String × String)) :
    Logged (Except ReadError α) := do
  Log.error error.code message (("path", path) :: details)
  return .error error

/-- The size that is allowed by a limit chosen for a reading. -/
def allowedSize (limit : Nat) : Nat := min limit inputLimit

/-- Reads a source of at most `limit` bytes. -/
def readSource (t : Tree) (limit : Nat) (path : String) : Logged (Except ReadError Source) := do
  Log.debug "Reading file" [("path", path)]
  match t.lookup path with
  | .error failure =>
    let error := ReadError.ofFailure path failure
    refuse path "Failed to read file metadata" error [("error", error.message)]
  | .ok (.file bytes) =>
    if limit < bytes.size then
      refuse path "File exceeds maximum size limit" (.tooLarge path bytes.size limit)
        [("size", toString bytes.size), ("max_size", toString limit)]
    else
      match t.readText path with
      | .error failure =>
        let error := ReadError.ofFailure path failure
        refuse path "Failed to read file" error [("error", error.message)]
      | .ok content =>
        let source : Source := ⟨path, bytes.size, content⟩
        if source.isLarge then Log.warning "Large file" [("path", path), ("size", toString bytes.size)]
        Log.success .fileRead "File read"
          [("path", path), ("size_bytes", toString bytes.size), ("lines", toString source.lineCount)]
        return .ok source
  | .ok _ => refuse path "Path is not a file" (.notAFile path) []

/-- Reads an input of a batch. -/
def readInput (t : Tree) (path : String) : Logged (Except ReadError Source) := readSource t inputLimit path

/-- Reads a grammar. -/
def readGrammar (t : Tree) (path : String) : Logged (Except ReadError Source) := readSource t grammarLimit path

end Lexeme.Files
