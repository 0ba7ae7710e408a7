import Lexeme.Proofs.Json.Entries
import Lexeme.Proofs.Json.Layout
import Lexeme.Proofs.Substitutions
import Lexeme.Substitutions.Standard

/-!
# Reading the standard substitutions

The document of the standard table is read as a table that has the standard substitutes (`exists_ofJson_standardDocument`).
Its entries stand in another order, since the fields of a value are taken in the order of their keys; as no key stands
twice, that makes no difference.
-/

namespace Lexeme

/-! ## Fields of texts -/

namespace Json

/-- A key with a string, the key being read already. -/
def textValue (e : String × String) : String × Json := (e.1, .string (escape e.2.toList))

/-- A field with a string, as a document has it. -/
def textField (e : String × String) : List Char × Json := (escape e.1.toList, .string (escape e.2.toList))

theorem areFields_textField (room : Nat) (entries : List (String × String)) :
    areFields room (entries.map textField) = true := by
  induction entries with
  | nil => rfl
  | cons e entries ih => simp [areFields, textField, text?_escape, isValue, ih]

/-- Entries in the order of their keys. -/
def inOrder (entries : List (String × String)) : List (String × String) := entries.mergeSort fun a b => a.1 ≤ b.1

theorem entries_textField {entries : List (String × String)} (h : (entries.map Prod.fst).Nodup) :
    Json.entries (entries.map textField) = (inOrder entries).map textValue := by
  have hread (read : List Char × Json → Option (String × Json)) (h : ∀ e, read (textField e) = some (textValue e)) :
      (entries.map textField).filterMap read = entries.map textValue := by
    rw [List.filterMap_map, ← List.filterMap_eq_map]
    exact List.filterMap_congr fun e _ => h e
  have hsorted : (entries.map textValue).mergeSort (fun a b => a.1 ≤ b.1) = (inOrder entries).map textValue :=
    (List.map_mergeSort (f := textValue) fun _ _ _ _ => rfl).symm
  have hkeys : (((inOrder entries).map textValue).map Prod.fst).Nodup := by
    rw [List.map_map]
    exact ((List.mergeSort_perm entries _).map Prod.fst).nodup_iff.mpr h
  rw [Json.entries, hread _ fun e => by simp [textField, textValue, text?_escape], hsorted, lastOfEach_eq_self hkeys]

end Json

namespace Substitutions

/-- The order of the entries does not matter. -/
theorem lookup?_inOrder {entries : List (String × String)} (h : (entries.map Prod.fst).Nodup) (literal : String) :
    lookup? ⟨Json.inOrder entries⟩ literal = lookup? ⟨entries⟩ literal := by
  have hperm : (Json.inOrder entries).Perm entries := List.mergeSort_perm _ _
  have horder : ((⟨Json.inOrder entries⟩ : Substitutions).entries.map Prod.fst).Nodup :=
    (hperm.map Prod.fst).nodup_iff.mpr h
  refine Option.ext fun replacement => ?_
  rw [lookup?_eq_some_iff h, lookup?_eq_some_iff horder]
  exact hperm.mem_iff

theorem toList_entryLine (e : String × String) : '\n' :: (entryLine e).toList =
    "\n    ".toList ++ (Json.quoted e.1.toList ++ ':' :: ' ' :: Json.quoted e.2.toList) := by
  unfold entryLine Json.quote
  simp only [String.toList_append, String.toList_ofList]
  simp [Json.quoted]

/-- A document with an entry on every line is read as its entries. -/
theorem parse?_entryLines (e : String × String) (entries : List (String × String)) :
    Json.parse? ("\x7b\n" ++ ",\n".intercalate ((e :: entries).map entryLine) ++ "\n\x7d\n") =
      some (.object ((e :: entries).map Json.textField)) := by
  have hfields : List.Forall₂ Json.ReadsField (((e :: entries).map entryLine).map fun line => '\n' :: line.toList)
      ((e :: entries).map Json.textField) := by
    rw [List.map_map, List.forall₂_map_left_iff, List.forall₂_map_right_iff, List.forall₂_same]
    intro e _
    rw [Function.comp_apply, toList_entryLine]
    exact Json.readsField_quoted (by decide) e.1 e.2
  have htext : ("\x7b\n" ++ ",\n".intercalate ((e :: entries).map entryLine) ++ "\n\x7d\n").toList =
      '\x7b' :: ([','].intercalate (((e :: entries).map entryLine).map fun line => '\n' :: line.toList) ++
        (['\n'] ++ ['\x7d'])) ++ ['\n'] := by
    rw [List.map_cons, ← Json.toList_intercalate_lines]
    simp
  exact (Json.reads_object hfields (by decide)).parse?_eq (by decide) htext

theorem ofEntries_inOrder : ofEntries (Json.inOrder standardEntries) = .ok ⟨Json.inOrder standardEntries⟩ :=
  ofEntries_of_legal fun e he => (legal_of_ofEntries ofEntries_standardEntries) e (List.mem_mergeSort.mp he)

theorem mapM_entryText (entries : List (String × String)) :
    (entries.map Json.textValue).mapM entryText = .ok entries := by
  induction entries with
  | nil => rfl
  | cons e entries ih =>
    rw [List.map_cons, List.mapM_cons, ih]
    simp [entryText, Json.textValue, Json.text?_escape]
    rfl

/-- The document of the standard table is read as a table with the standard substitutes. -/
theorem exists_ofJson_standardDocument : ∃ table, ofJson standardDocument = .ok table ∧
    ∀ literal, table.lookup? literal = standard.lookup? literal := by
  have hkeys : (standardEntries.map Prod.fst).Nodup := by decide +kernel
  refine ⟨⟨Json.inOrder standardEntries⟩, ?_, lookup?_inOrder hkeys⟩
  have hvalue : Json.value? standardDocument = some (.object (standardEntries.map Json.textField)) := by
    have hparse : Json.parse? standardDocument = some (.object (standardEntries.map Json.textField)) :=
      parse?_entryLines _ _
    rw [Json.value?, hparse]
    simp [Json.isValue, Json.areFields_textField, Json.nestingLimit]
  rw [ofJson, hvalue]
  dsimp only
  rw [Json.entries_textField hkeys, mapM_entryText]
  exact ofEntries_inOrder

end Substitutions

end Lexeme
