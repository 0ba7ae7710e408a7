import Lexeme.Log.Event

/-!
# The log of a run

A log keeps the events that are loud enough for its threshold, and knows which file is being processed. Work that
reports events is an action of `Logged`: it reads and changes the log and gives a result. While a file is being
processed, every event that is reported names it, and errors also give its number in the batch.
-/

namespace Lexeme

/-- The file that is being processed, and its number in the batch. -/
structure Log.CurrentFile where
  path : String
  number : Nat
deriving DecidableEq, Repr

/-- The state of a log. Its events stand latest first. -/
structure Log where
  threshold : Log.Level
  file : Option Log.CurrentFile
  events : List Log.Event
deriving Repr

/-- Work that reports to a log. -/
abbrev Logged := StateM Log

/-- The result of one piece of work after another, whatever the first reports. -/
theorem Logged.run_bind_fst {α β : Type} (x : Logged α) (f : α → Logged β) (log : Log) :
    ((x >>= f).run log).1 = ((f (x.run log).1).run (x.run log).2).1 := rfl

namespace Log

/-- A log without events, outside any file. -/
def empty (threshold : Level) : Log := ⟨threshold, none, []⟩

/-- The events from the first to the last. -/
def history (log : Log) : List Event := log.events.reverse

/-- Whether events of a level are kept. -/
def keeps (log : Log) (level : Level) : Bool := level ≤ log.threshold

/-- Keeps an event whatever its level. -/
def record (log : Log) (e : Event) : Log := { log with events := e :: log.events }

/-- Keeps an event if its level is kept. -/
def submit (log : Log) (e : Event) : Log := if log.keeps e.level then log.record e else log

/-- The event with the file that it concerns. -/
def ascribe (e : Event) : Option CurrentFile → Event
  | none => e
  | some file =>
    let named := e.detail "file" file.path
    if e.level = .error then named.detail "file_id" (toString file.number) else named

/-- Reports an event about the file that is being processed. -/
def report (e : Event) : Logged Unit :=
  modify fun log => log.submit (ascribe e log.file)

/-- Reports an error. -/
def error (code : ErrorCode) (message : String) (details : List (String × String)) : Logged Unit :=
  report ((Event.error code.id message).detailed details)

/-- Reports an error at a position. -/
def errorAt (p : Position) (code : ErrorCode) (message : String) (details : List (String × String)) :
    Logged Unit :=
  report (((Event.error code.id message).atPosition p).detailed details)

/-- Reports a completed stage. -/
def success (stage : Milestone) (message : String) (details : List (String × String)) : Logged Unit :=
  report ((Event.success stage.id message).detailed details)

def warning (message : String) (details : List (String × String)) : Logged Unit :=
  report ((Event.warning message).detailed details)

def info (message : String) (details : List (String × String)) : Logged Unit :=
  report ((Event.info message).detailed details)

def debug (message : String) (details : List (String × String)) : Logged Unit :=
  report ((Event.debug message).detailed details)

/-- Says which file is being processed from now on. -/
def enterFile (file : CurrentFile) : Logged Unit :=
  modify fun log => { log with file := some file }

/-- Says that no file is being processed from now on. -/
def leaveFile : Logged Unit :=
  modify fun log => { log with file := none }

/-- Processes a file. Afterwards no file is being processed, also if one was before. -/
def withFile {α : Type} (file : CurrentFile) (work : Logged α) : Logged α := do
  enterFile file
  let result ← work
  leaveFile
  return result

end Log

end Lexeme
