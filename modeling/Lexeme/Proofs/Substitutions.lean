import Mathlib.Data.List.Nodup
import Lexeme.Substitutions

/-!
# Tables of substitutes

However a table is got, all its substitutes are legal names (`Built.legal`). So what a literal is normalized to is legal.
-/

namespace Lexeme.Substitutions

variable {table : Substitutions}

/-- Whether all substitutes are legal names. -/
def Legal (table : Substitutions) : Prop := ∀ e ∈ table.entries, Terminal.isLegal e.2 = true

/-- The ways to get a table: from entries, or from a document. -/
inductive Built : Substitutions → Prop
  | entries {entries : List (String × String)} {table : Substitutions} (h : ofEntries entries = .ok table) : Built table
  | json {text : String} {table : Substitutions} (h : ofJson text = .ok table) : Built table

theorem legal_of_ofEntries {entries : List (String × String)} (h : ofEntries entries = .ok table) : table.Legal := by
  unfold ofEntries at h
  split at h
  · cases h
  · next hnone =>
    cases h
    intro e he
    simpa using List.find?_eq_none.mp hnone e he

theorem legal_of_ofJson {text : String} (h : ofJson text = .ok table) : table.Legal := by
  unfold ofJson at h
  split at h
  · cases h
  · next fields _ =>
    cases hentries : (Json.entries fields).mapM entryText with
    | error e =>
      rw [hentries] at h
      cases h
    | ok entries =>
      rw [hentries] at h
      exact legal_of_ofEntries h
  · cases h

/-- All substitutes of every table are legal. -/
theorem Built.legal (h : Built table) : table.Legal := by
  cases h with
  | entries h => exact legal_of_ofEntries h
  | json h => exact legal_of_ofJson h

theorem Legal.isLegal_normalized (h : table.Legal) {literal name : String} (hname : table.normalized literal = .ok name) :
    Terminal.isLegal name = true := by
  unfold normalized at hname
  split at hname
  · next hlegal =>
    cases hname
    exact hlegal
  · unfold substituted lookup? at hname
    cases hfind : table.entries.find? (·.1 = literal) with
    | none =>
      rw [hfind] at hname
      cases hname
    | some e =>
      rw [hfind] at hname
      cases hname
      exact h e (List.mem_of_find?_eq_some hfind)

/-- In a table where no literal stands twice the substitute of a literal is the one that stands with it. -/
theorem lookup?_eq_some_iff (h : (table.entries.map Prod.fst).Nodup) {literal replacement : String} :
    table.lookup? literal = some replacement ↔ (literal, replacement) ∈ table.entries := by
  unfold lookup?
  constructor
  · intro hlookup
    obtain ⟨e, hfind, rfl⟩ := Option.map_eq_some_iff.mp hlookup
    obtain rfl : e.1 = literal := by simpa using List.find?_some hfind
    exact List.mem_of_find?_eq_some hfind
  · intro hmem
    cases hfind : table.entries.find? (·.1 = literal) with
    | none =>
      have hkey := List.find?_eq_none.mp hfind _ hmem
      simp at hkey
    | some e =>
      have hkey : e.1 = literal := by simpa using List.find?_some hfind
      rw [List.inj_on_of_nodup_map h (List.mem_of_find?_eq_some hfind) hmem hkey]
      rfl

/-- A literal has no legal name exactly when it is not legal itself and the table does not have it. -/
theorem normalized_eq_error_iff {literal : String} {e : Error} :
    table.normalized literal = .error e ↔
      e = .missingEntry literal ∧ Terminal.isLegal literal = false ∧ table.lookup? literal = none := by
  unfold normalized substituted
  cases hlegal : Terminal.isLegal literal with
  | true => simp
  | false =>
    cases hlookup : table.lookup? literal with
    | some replacement => simp
    | none => simp [eq_comm]

/-- The legal name of a literal is the literal itself, or its substitute if it is not legal. -/
theorem normalized_eq_ok_iff {literal name : String} :
    table.normalized literal = .ok name ↔
      Terminal.isLegal literal = true ∧ literal = name ∨
        Terminal.isLegal literal = false ∧ table.lookup? literal = some name := by
  unfold normalized substituted
  cases Terminal.isLegal literal with
  | true => simp
  | false => cases table.lookup? literal <;> simp

/-- What a table does with literals depends on its substitutes only. -/
theorem normalized_congr {other : Substitutions} (h : ∀ literal, table.lookup? literal = other.lookup? literal) (literal : String) :
    table.normalized literal = other.normalized literal := by
  unfold normalized substituted
  rw [h]

end Lexeme.Substitutions
