import Lexeme.Json.Value
import Lexeme.Log.Code
import Lexeme.Position
import Lexeme.Text.Lines

/-!
# Events

An event is one line of the log: a level, a code, a message of bounded length, and optionally a position and named
details. Details are kept in ascending order of their names, and a name occurs once.
-/

namespace Lexeme.Log

/-- How much an event matters, errors most. -/
inductive Level where
  | error
  | warning
  | info
  | debug
deriving DecidableEq, Repr

namespace Level

def name : Level → String
  | error => "ERROR"
  | warning => "WARN"
  | info => "INFO"
  | debug => "DEBUG"

/-- The place in the order from the quietest log to the most talkative. -/
def rank : Level → Nat
  | error => 0
  | warning => 1
  | info => 2
  | debug => 3

instance : LE Level := ⟨fun a b => a.rank ≤ b.rank⟩

instance (a b : Level) : Decidable (a ≤ b) := inferInstanceAs (Decidable (a.rank ≤ b.rank))

/-- The level that a user names, by word or by number. -/
def ofText? (text : String) : Option Level :=
  match text.map Char.toLower with
  | "error" | "0" => some error
  | "warning" | "warn" | "1" => some warning
  | "info" | "2" => some info
  | "debug" | "3" => some debug
  | _ => none

end Level

/-- A message takes at most this many bytes of UTF-8, not counting the dots that stand for a cut. -/
def messageLimit : Nat := 4096

/-- The message as an event keeps it: cut after a whole character, with three dots, when it is too long. -/
def bounded (message : String) : String :=
  if message.utf8ByteSize ≤ messageLimit then message
  else String.Pos.Raw.extract message 0 ⟨Text.boundaryFrom message messageLimit⟩ ++ "..."

structure Event where
  level : Level
  code : String
  message : String
  position : Option Position
  details : List (String × String)
deriving DecidableEq, Repr

namespace Event

def make (level : Level) (code message : String) : Event :=
  ⟨level, code, bounded message, none, []⟩

def error (code message : String) : Event := make .error code message

/-- An event that reports a completed stage. -/
def success (code message : String) : Event := make .info code message

def warning (message : String) : Event := make .warning "W000" message

def info (message : String) : Event := make .info "I000" message

def debug (message : String) : Event := make .debug "D000" message

def atPosition (e : Event) (p : Position) : Event := { e with position := some p }

/-- Puts a detail in its place among the others, instead of one of the same name. -/
def insertDetail (name value : String) : List (String × String) → List (String × String)
  | [] => [(name, value)]
  | (n, v) :: rest =>
    if name < n then (name, value) :: (n, v) :: rest
    else if name = n then (name, value) :: rest
    else (n, v) :: insertDetail name value rest

/-- Adds a named detail. -/
def detail (e : Event) (name value : String) : Event :=
  { e with details := insertDetail name value e.details }

/-- Adds named details in turn. -/
def detailed (e : Event) (details : List (String × String)) : Event :=
  details.foldl (fun e d => e.detail d.1 d.2) e

/-- The event as one line of text. -/
def toLine (e : Event) : String :=
  let place := match e.position with
    | some p => s!" at {p}"
    | none => ""
  e.details.foldl (fun line d => line ++ s!" {d.1}={d.2}") s!"[{e.level.name}] {e.code} - {e.message}{place}"

/-- The event as one line of JSON, its fields in ascending order. -/
def toJsonLine (e : Event) : String :=
  let known := profile e.code
  let context := if e.details.isEmpty then [] else
    [("context", Json.writeObject (e.details.map fun d => (d.1, Json.quote d.2)))]
  let metadata := if e.level ≠ .error then [] else
    [("error_metadata", Json.writeObject [("description", Json.quote known.description),
      ("recommended_action", Json.quote known.action), ("recoverable", toString known.recoverable),
      ("requires_halt", toString known.requiresHalt)])]
  let place := match e.position with
    | some p => [("position", Json.writeObject [("column", toString p.column), ("line", toString p.line)])]
    | none => []
  Json.writeObject <|
    [("category", Json.quote known.area), ("code", Json.quote e.code)] ++ context ++ metadata ++
      [("level", Json.quote e.level.name), ("message", Json.quote e.message)] ++ place ++
      [("severity", Json.quote known.severity.name)]

end Event

end Lexeme.Log
