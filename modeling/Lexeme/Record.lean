import Lexeme.Json.Value

/-!
# Records

A record is what is written about a token: the name of its kind, which is the terminal, and its text, which is the
literal. Records are written as a JSON array over several lines; reading takes any JSON array of records.
-/

namespace Lexeme

structure Record where
  terminal : String
  literal : String
deriving DecidableEq, Repr

namespace Record

/-! ## Writing -/

/-- One record as an object, indented by four blanks. -/
def written (r : Record) : String :=
  "    \x7b\n        \"terminal\": " ++ Json.quote r.terminal ++ ",\n        \"literal\": " ++ Json.quote r.literal ++
    "\n    \x7d"

/-- Records as a document. -/
def artifact : List Record → String
  | [] => "[]"
  | records => "[\n" ++ ",\n".intercalate (records.map written) ++ "\n]"

/-! ## Reading -/

/-- The value of the only field of a name. -/
def only? (name : String) (fields : List (String × Json)) : Option Json :=
  match fields.filter (·.1 = name) with
  | [(_, value)] => some value
  | _ => none

/-- The text that a value is. -/
def textOf? : Json → Option String
  | .string body => Json.text? body
  | _ => none

/-- The record that a value stands for: an object with both fields, once each, and any others; or an array of the
terminal and the literal. -/
def ofValue? : Json → Option Record
  | .object fields => do
    let named ← fields.mapM fun (key, value) => (Json.text? key).map (·, value)
    return ⟨← textOf? (← only? "terminal" named), ← textOf? (← only? "literal" named)⟩
  | .array [terminal, literal] => do return ⟨← textOf? terminal, ← textOf? literal⟩
  | _ => none

/-- Reads a document of records. -/
def parse? (text : String) : Option (List Record) :=
  match Json.parse? text with
  | some (.array values) => values.mapM ofValue?
  | _ => none

end Record

end Lexeme
