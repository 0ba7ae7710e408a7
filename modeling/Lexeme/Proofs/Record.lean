import Lexeme.Proofs.Json.Layout
import Lexeme.Record

/-!
# Reading artifacts

What is written for records is read back as the records, whatever characters their fields have (`parse?_artifact`). The
layout of an artifact is taken apart as that of any document is: a record is an object with white space around its
fields, and the records are the items of an array.
-/

namespace Lexeme.Record

open Json (Reads ReadsField IsSpace quoted escape)

/-- The value that stands for a record. -/
def value (r : Record) : Json :=
  .object [(escape "terminal".toList, .string (escape r.terminal.toList)),
    (escape "literal".toList, .string (escape r.literal.toList))]

theorem ofValue?_value (r : Record) : ofValue? r.value = some r := by
  simp only [ofValue?, value, List.mapM_cons, List.mapM_nil, Json.text?_escape, Option.map_some, Option.pure_def,
    Option.bind_eq_bind, Option.bind_some]
  simp [only?, textOf?, Json.text?_escape]

/-- The white space before a field. -/
def fieldIndent : List Char := "\n        ".toList

theorem toList_written (r : Record) :
    r.written.toList = "    ".toList ++ ('\x7b' :: ([','].intercalate
      [fieldIndent ++ (quoted "terminal".toList ++ ':' :: ' ' :: quoted r.terminal.toList),
        fieldIndent ++ (quoted "literal".toList ++ ':' :: ' ' :: quoted r.literal.toList)] ++
      ("\n    ".toList ++ ['\x7d']))) := by
  have hterminal : quoted "terminal".toList = "\"terminal\"".toList := by decide +kernel
  have hliteral : quoted "literal".toList = "\"literal\"".toList := by decide +kernel
  unfold written Json.quote fieldIndent
  simp only [String.toList_append, String.toList_ofList]
  simp only [hterminal, hliteral]
  simp [quoted]

/-- A record is written as its value. -/
theorem reads_written (r : Record) : Reads r.written.toList r.value := by
  have hindent : IsSpace fieldIndent := by decide
  rw [toList_written]
  refine (Json.reads_object ?_ (by decide)).space (by decide)
  exact .cons (Json.readsField_quoted hindent _ _) (.cons (Json.readsField_quoted hindent _ _) .nil)

/-- An artifact is written as the array of the values of its records. -/
theorem reads_artifact (records : List Record) : Reads (artifact records).toList (.array (records.map value)) := by
  have hitems : List.Forall₂ Reads ((records.map written).map fun line => '\n' :: line.toList) (records.map value) := by
    rw [List.map_map, List.forall₂_map_left_iff, List.forall₂_map_right_iff, List.forall₂_same]
    exact fun r _ => (reads_written r).space (show IsSpace ['\n'] by decide)
  cases records with
  | nil => exact Json.reads_array .nil (show IsSpace [] by decide)
  | cons r records =>
    have hlines : artifact (r :: records) = "[\n" ++ ",\n".intercalate ((r :: records).map written) ++ "\n]" := rfl
    have htext : (artifact (r :: records)).toList =
        '[' :: ([','].intercalate (((r :: records).map written).map fun line => '\n' :: line.toList) ++
          (['\n'] ++ [']'])) := by
      rw [hlines, List.map_cons, ← Json.toList_intercalate_lines]
      simp
    rw [htext]
    exact Json.reads_array hitems (by decide)

theorem mapM_ofValue?_value (records : List Record) : (records.map value).mapM ofValue? = some records := by
  induction records with
  | nil => rfl
  | cons r records ih => simp [List.mapM_cons, ofValue?_value, ih]

/-- Reading an artifact gives back the records it was written for, in their order; so artifacts of different records are
different. -/
theorem parse?_artifact :
    (∀ records, parse? (artifact records) = some records) ∧ Function.Injective artifact := by
  have hparse : ∀ records, parse? (artifact records) = some records := by
    intro records
    have hdocument : Json.parse? (artifact records) = some (.array (records.map value)) :=
      (reads_artifact records).parse?_eq (List.forall_mem_nil _) (List.append_nil _).symm
    rw [parse?, hdocument]
    exact mapM_ofValue?_value records
  refine ⟨hparse, fun records others h => ?_⟩
  exact Option.some.inj ((hparse records).symm.trans (h ▸ hparse others))

end Lexeme.Record
