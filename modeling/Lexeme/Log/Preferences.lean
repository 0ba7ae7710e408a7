import Lexeme.Log.Basic

/-!
# Preferences of the log

The environment chooses how much is logged and in which form. Neither changes what a run writes.
-/

namespace Lexeme.Log

structure Preferences where
  threshold : Level
  structured : Bool
deriving DecidableEq, Repr

namespace Preferences

/-- Warnings and errors, as text. -/
def default : Preferences := ⟨.warning, false⟩

/-- The preferences that an environment states. What it does not state, or states in unknown words, is as by
default. -/
def ofEnvironment (setting? : String → Option String) : Preferences where
  threshold := ((setting? "TERMLEX_LOG_LEVEL").bind Level.ofText?).getD default.threshold
  structured :=
    ((setting? "TERMLEX_LOG_FORMAT").map fun form => form.map Char.toLower == "json").getD default.structured

/-- Where the limits of this program are laid down. -/
def limitsSource : String := "Generated from config/development.toml"

/-- One line about the settings in force. -/
def summary (p : Preferences) : String :=
  s!"Logging: level={p.threshold.name}, structured={p.structured}, max_message_length={messageLimit} ({limitsSource})"

/-- An event in the form that is preferred. -/
def render (p : Preferences) (e : Event) : String :=
  if p.structured then e.toJsonLine else e.toLine

end Preferences

/-- What has been set up in a run. Everything is set up at most once. -/
structure Setup where
  preferences : Option Preferences
  started : Bool
deriving DecidableEq, Repr

namespace Setup

/-- Nothing has been set up. -/
def initial : Setup := ⟨none, false⟩

/-- Chooses preferences. -/
def prefer (s : Setup) (p : Preferences) : Except String Setup :=
  match s.preferences with
  | none => .ok { s with preferences := some p }
  | some _ => .error "Runtime preferences already initialized"

/-- Starts the log. -/
def start (s : Setup) : Except String Setup :=
  if s.started then .error "Global logger already initialized" else .ok { s with started := true }

/-- The preferences in force. -/
def inForce (s : Setup) : Preferences := s.preferences.getD .default

/-- The limits that a log can work with. -/
def isValid : Bool := 64 ≤ messageLimit

end Setup

end Lexeme.Log
