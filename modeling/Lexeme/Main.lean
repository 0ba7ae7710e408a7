import Lexeme.CommandLine

/-!
# The program

The part of the file system that a run can see is read into a tree, the run works on the tree, and what it has
written is written back.
-/

namespace Lexeme.Main

open Files (Tree Node)

/-- What is at a path of the file system, links followed. -/
def nodeAt? (path : String) : IO (Option Node) := do
  let place := (← IO.currentDir) / path
  try
    match (← place.metadata).type with
    | .file => return some (.file (← IO.FS.readBinFile place))
    | .dir => return some .directory
    | _ => return some .device
  catch _ => return none

/-- The names in a directory. -/
def namesIn (path : String) : IO (List String) := do
  let place := (← IO.currentDir) / path
  try return (← place.readDir).toList.map (·.fileName)
  catch _ => return []

/-- Takes what is at a path into a tree. -/
def capture (t : Tree) (path : String) : IO Tree := do
  match ← nodeAt? path with
  | some node => return t.plant path node
  | none => return t

/-- Takes a directory and what is in it into a tree. -/
def captureDirectory (t : Tree) (path : String) : IO Tree := do
  let paths := (← namesIn path).map (Files.join path)
  paths.foldlM capture (← capture t path)

/-- The files that a run can see. -/
def visibleFiles (arguments : CommandLine.Arguments) : IO Tree := do
  let start := Tree.startingAt (toString (← IO.currentDir))
  let t ← [Substitutions.defaultPath, arguments.lexer].foldlM capture start
  captureDirectory (← captureDirectory t arguments.input) arguments.output

/-- Writes back what has changed in a directory. -/
def writeBack (before after : Tree) (directory : String) : IO Unit := do
  let names := (after.list directory).toOption.getD []
  for path in names.map (Files.join directory) do
    match before.read path, after.read path with
    | .ok old, .ok new => if old != new then IO.FS.writeBinFile path new
    | .error _, .ok new => IO.FS.writeBinFile path new
    | _, .error _ => pure ()

/-- The time since a moment given in nanoseconds. -/
def timeSince (start : Nat) : IO Duration := do
  return .of 0 ((← IO.monoNanosNow) - start)

/-- Runs the program with three arguments. -/
def runOn (arguments : CommandLine.Arguments) : IO CommandLine.Report := do
  let level ← IO.getEnv "TERMLEX_LOG_LEVEL"
  let form ← IO.getEnv "TERMLEX_LOG_FORMAT"
  let preferences := Log.Preferences.ofEnvironment fun name =>
    if name = "TERMLEX_LOG_LEVEL" then level else if name = "TERMLEX_LOG_FORMAT" then form else none
  let files ← visibleFiles arguments
  let begin ← IO.monoNanosNow
  let (result, session) := CommandLine.start preferences arguments (CommandLine.session preferences files)
  writeBack files session.files arguments.output
  let duration ← timeSince begin
  let (result, session) := CommandLine.finish duration result session
  return CommandLine.report preferences result session

/-- Runs the program. -/
def run (arguments : List String) : IO CommandLine.Report :=
  match CommandLine.Arguments.ofList? arguments with
  | some arguments => runOn arguments
  | none => return CommandLine.refusal .empty

end Lexeme.Main

/-- Prints the report of a run and gives its exit status. -/
def main (arguments : List String) : IO UInt32 := do
  let report ← Lexeme.Main.run arguments
  for line in report.output do IO.println line
  for line in report.errors do IO.eprintln line
  return report.status.toUInt32
