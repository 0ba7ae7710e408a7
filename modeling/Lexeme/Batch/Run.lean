import Lexeme.Batch.Basic

/-!
# Running batches

The inputs of a directory are taken in ascending order of their names, one after the other. An input that cannot be
tokenized ends the batch; if failures are isolated it is recorded instead, unless the table of substitutions is to
blame. Outputs that have been written stay.

A run works on a session: the files, the log, and what has been shown to the user.
-/

namespace Lexeme.Batch

/-- What a run works on. The lines that have been shown stand last first. -/
structure Session where
  files : Files.Tree
  log : Log
  shown : List String

/-- Work on a session. -/
abbrev Work := StateM Session

/-- Does work that reports to the log. -/
def logged {α : Type} (work : Files.Tree → Logged α) : Work α := fun session =>
  let (result, log) := work session.files session.log
  (result, { session with log })

/-- Shows lines to the user. -/
def display (lines : String) : Work Unit := modify fun session => { session with shown := lines :: session.shown }

/-- Reports an error of the batch and gives it. -/
def refuse {α : Type} (error : Error) (message : String) (details : List (String × String)) :
    Logged (Except Error α) := do
  Log.error error.code message details
  return .error error

/-! ## Discovery -/

/-- Makes sure that there is a directory. -/
def requireDirectory (files : Files.Tree) (path : String) : Logged (Except Error Unit) :=
  if files.isDirectory path then return .ok ()
  else refuse (.directoryNotFound path) "Directory not found" [("path", path)]

/-- Tells the paths of directories from the others, and reports them. -/
def skipDirectories (files : Files.Tree) : List String → Logged (List String)
  | [] => return []
  | path :: rest => do
    if files.isDirectory path then
      Log.warning "Skipping subdirectory" [("path", path)]
      skipDirectories files rest
    else return path :: (← skipDirectories files rest)

/-- The paths of the names in a directory that are not directories themselves, in ascending order of the names. -/
def inputPaths (files : Files.Tree) (directory : String) (names : List String) : Logged (List String) := do
  let paths ← skipDirectories files (names.map (Files.join directory))
  return paths.mergeSort (· ≤ ·)

/-- Finds the inputs in a directory. -/
def discover (options : Options) (files : Files.Tree) (directory : String) : Logged (Except Error (List String)) := do
  match ← requireDirectory files directory with
  | .error e => return .error e
  | .ok () =>
    match files.list directory with
    | .error failure =>
      refuse (.directoryRead directory failure.message) "Cannot list input directory"
        [("path", directory), ("error", failure.message)]
    | .ok names =>
      let paths ← inputPaths files directory names
      if options.fileLimit < paths.length then
        refuse (.tooManyFiles paths.length options.fileLimit) "Too many input files"
          [("count", toString paths.length), ("max", toString options.fileLimit)]
      else
        Log.info "File discovery completed" [("files_found", toString paths.length), ("directory", directory)]
        return .ok paths

/-! ## One file -/

/-- Writes records to a path. -/
def writeArtifact (path : String) (records : List Record) : Work (Except Error Unit) := do
  match (← get).files.write path (Record.artifact records).toUTF8 with
  | .error failure =>
    logged fun _ => refuse (.outputWrite path failure.message) "Cannot write artifact"
      [("path", path), ("error", failure.message)]
  | .ok files =>
    modify fun session => { session with files }
    logged fun _ =>
      Log.success .artifactWritten "Artifact written" [("path", path), ("tokens", toString records.length)]
    return .ok ()

/-- Turns one input into its output. -/
def processFile (tokenizer : Tokenizer) (options : Options) (directory input : String) :
    Work (Except Error Outcome) := do
  match ← logged (tokenizer.fileRecords · input) with
  | .error cause => return .error (.file input cause)
  | .ok records =>
    if options.showProgress then
      display (progressLine ((Files.fileName? input).getD "") records.length)
    let output := outputPath input directory
    match ← writeArtifact output records with
    | .error e => return .error e
    | .ok () => return .ok ⟨input, output, records.length⟩

/-- Turns one input into its output; all that is reported on the way is about that input. -/
def processNumbered (tokenizer : Tokenizer) (options : Options) (directory : String) (number : Nat) (input : String) :
    Work (Except Error Outcome) := do
  logged fun _ => Log.enterFile ⟨input, number⟩
  let result ← processFile tokenizer options directory input
  logged fun _ => Log.leaveFile
  return result

/-! ## The run -/

/-- Whether a failure is recorded and the batch goes on. -/
def isolated? (options : Options) : Error → Option (String × TokenizingError)
  | .file path cause => if options.isolateFailures && !cause.isFatal then some (path, cause) else none
  | _ => none

/-- Processes inputs, the first of which has the given number. The lists of `results` stand last first. -/
def processAll (tokenizer : Tokenizer) (options : Options) (directory : String) (number : Nat) (results : Results) :
    List String → Work (Except Error Results)
  | [] => return .ok { results with completed := results.completed.reverse, failed := results.failed.reverse }
  | input :: rest => do
    match ← processNumbered tokenizer options directory number input with
    | .ok outcome =>
      let results := { results with completed := outcome :: results.completed }
      processAll tokenizer options directory (number + 1) results rest
    | .error e =>
      match isolated? options e with
      | some (path, cause) =>
        logged fun _ => Log.warning "Skipping failed input" [("path", path), ("error", cause.message)]
        let results := { results with failed := (path, cause) :: results.failed }
        processAll tokenizer options directory (number + 1) results rest
      | none => return .error e

/-- Finds and processes all inputs. -/
def process (tokenizer : Tokenizer) (options : Options) (input output : String) : Work (Except Error Results) := do
  logged fun _ => Log.info "Starting batch processing"
    [("engine", tokenizer.engine.name), ("input_dir", input), ("output_dir", output)]
  match ← logged (requireDirectory · output) with
  | .error e => return .error e
  | .ok () =>
    match ← logged (discover options · input) with
    | .error e => return .error e
    | .ok paths => processAll tokenizer options output 0 ⟨[], [], paths.length, .zero⟩ paths

/-- Reports the results of a batch that took some time. -/
def conclude (results : Results) : Logged Unit :=
  Log.success .batchCompleted "Batch processing completed"
    [("files_processed", toString results.successCount), ("failed", toString results.failureCount),
      ("duration_ms", results.duration.inMilliseconds.twoPlaces)]

/-- Runs a batch that takes the given time. -/
def run (tokenizer : Tokenizer) (options : Options) (input output : String) (duration : Duration) :
    Work (Except Error Results) := do
  match ← process tokenizer options input output with
  | .error e => return .error e
  | .ok results =>
    let results := { results with duration }
    logged fun _ => conclude results
    return .ok results

end Lexeme.Batch
