import Lexeme.Batch.Run
import Lexeme.Files.Table
import Lexeme.Log.Preferences

/-!
# The command line

The program takes the lexer, the input directory and the output directory. It loads the table of substitutions first,
since nothing can be named without it, then the engine, and then runs a batch. The environment decides what is logged.

A run has two parts, so that the time in between can be measured: `start` does the work and `finish` reports on it.
-/

namespace Lexeme.CommandLine

/-- The name of the program. -/
def programName : String := "termlex"

/-- What the user is told who gives a wrong number of arguments. -/
def usage : List String :=
  [s!"{programName} v0.1.0",
   "Tokenize every file of a directory into JSON token lists",
   "",
   "USAGE:",
   s!"    {programName} <lexer> <input-dir> <output-dir>",
   "",
   "ARGUMENTS:",
   "    <lexer>         \"python3\" for the built-in lexer, otherwise a grammar file",
   "    <input-dir>     Directory whose files are tokenized",
   "    <output-dir>    Existing directory receiving one .json file per input",
   "",
   "ENVIRONMENT (stderr diagnostics only, never changes the .json output):",
   "    TERMLEX_LOG_LEVEL     error | warning | info | debug (default: warning)",
   "    TERMLEX_LOG_FORMAT    text | json (default: text)",
   "",
   "Substitutions are read from resources/name_substitutions.json"]

/-- What is asked for. -/
structure Arguments where
  lexer : String
  input : String
  output : String
deriving DecidableEq, Repr

/-- The arguments, if there are three. -/
def Arguments.ofList? : List String → Option Arguments
  | [lexer, input, output] => some ⟨lexer, input, output⟩
  | _ => none

/-- What a run leaves behind: its exit status, its lines on both streams, and the files. -/
structure Report where
  status : Nat
  output : List String
  errors : List String
  files : Files.Tree

/-- The report of a run with a wrong number of arguments. -/
def refusal (files : Files.Tree) : Report := ⟨1, [], usage, files⟩

/-- A session that has just begun. -/
def session (preferences : Log.Preferences) (files : Files.Tree) : Batch.Session :=
  ⟨files, .empty preferences.threshold, []⟩

/-- The tokenizer for a lexer that a user names. The error is the message for the user. -/
def tokenizer (lexer : String) : Batch.Work (Except String Tokenizer) := do
  match ← Batch.logged Substitutions.loadDefault with
  | .error e => return .error e.message
  | .ok table =>
    match ← Batch.logged (Engine.load · (.ofText lexer)) with
    | .error e => return .error e.message
    | .ok engine => return .ok ⟨engine, table⟩

/-- Does the work of a run. -/
def start (preferences : Log.Preferences) (arguments : Arguments) : Batch.Work (Except String Batch.Results) := do
  Batch.logged fun _ => Log.success .started "Global logging system initialized" []
  Batch.logged fun _ => Log.debug preferences.summary []
  match ← tokenizer arguments.lexer with
  | .error message => return .error message
  | .ok tokenizer =>
    match ← Batch.process tokenizer .default arguments.input arguments.output with
    | .error e => return .error e.message
    | .ok results => return .ok results

/-- Reports on the work, which took some time. -/
def finish (duration : Duration) (result : Except String Batch.Results) : Batch.Work (Except String Unit) := do
  match result with
  | .error message => return .error message
  | .ok results =>
    let results := { results with duration }
    Batch.logged fun _ => Batch.conclude results
    Batch.logged fun _ => Log.info results.summary []
    return .ok ()

/-- The report of a run that ends with a result and a session. -/
def report (preferences : Log.Preferences) (result : Except String Unit) (session : Batch.Session) : Report :=
  let events := session.log.history.map preferences.render
  match result with
  | .ok () => ⟨0, session.shown.reverse, events, session.files⟩
  | .error message => ⟨1, session.shown.reverse, events ++ [s!"Error: {message}"], session.files⟩

/-- Runs the program on files, with given arguments and environment, as if it took the given time. -/
def run (duration : Duration) (files : Files.Tree) (arguments : List String) (setting? : String → Option String) :
    Report :=
  match Arguments.ofList? arguments with
  | none => refusal files
  | some arguments =>
    let preferences := Log.Preferences.ofEnvironment setting?
    let (result, session) := (start preferences arguments >>= finish duration) (session preferences files)
    report preferences result session

end Lexeme.CommandLine
