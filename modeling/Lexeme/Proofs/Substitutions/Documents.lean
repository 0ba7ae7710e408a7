import Lexeme.Proofs.Json.Entries
import Lexeme.Proofs.Json.Grammar
import Lexeme.Proofs.Substitutions

/-!
# Tables from documents

What an object is read as is decided in two steps: all last values of its keys have to be texts (`readsFields_entries`),
and all these texts have to be legal (`readsTable_of_isDocument`). Each step has its own error, and illegal texts are
reported only where all values are texts. A table that is read binds each literal to the last value of the literal, and
what it calls a literal is legal (`ofJson_normalize`).
-/

namespace Lexeme.Substitutions

open Json (IsDocument LastValue text?)

/-! ## Values that are texts -/

/-- Whether a value is a text. -/
def IsText (value : Json) (text : String) : Prop := ∃ body, value = .string body ∧ text? body = some text

theorem IsText.unique {value : Json} {text text' : String} (h : IsText value text) (h' : IsText value text') :
    text = text' := by
  obtain ⟨body, rfl, hbody⟩ := h
  obtain ⟨_, heq, hbody'⟩ := h'
  cases heq
  exact Option.some.inj (hbody.symm.trans hbody')

/-- A field is read as the text that its value is, and refused when it is none. -/
theorem entryText_cases (literal : String) (value : Json) :
    (∃ text, IsText value text ∧ entryText (literal, value) = .ok (literal, text)) ∨
      (∀ text, ¬IsText value text) ∧ entryText (literal, value) = .error (.notText literal) := by
  cases value with
  | string body =>
    cases hbody : text? body with
    | some text => exact .inl ⟨text, ⟨body, rfl, hbody⟩, by simp [entryText, hbody]⟩
    | none =>
      refine .inr ⟨?_, by simp [entryText, hbody]⟩
      rintro text ⟨_, heq, htext⟩
      cases heq
      cases hbody.symm.trans htext
  | _ =>
    refine .inr ⟨?_, rfl⟩
    rintro text ⟨_, heq, _⟩
    cases heq

/-- What fields are read as: all of them are texts, or the first that is none is refused. -/
inductive ReadsTexts (entries : List (String × Json)) : Except Error (List (String × String)) → Prop
  | texts {pairs : List (String × String)}
      (h : List.Forall₂ (fun entry pair => pair.1 = entry.1 ∧ IsText entry.2 pair.2) entries pairs) : ReadsTexts entries (.ok pairs)
  | notText {before after : List (String × Json)} {literal : String} {value : Json}
      (heq : entries = before ++ (literal, value) :: after) (hbefore : ∀ entry ∈ before, ∃ text, IsText entry.2 text)
      (hvalue : ∀ text, ¬IsText value text) : ReadsTexts entries (.error (.notText literal))

theorem readsTexts_mapM (entries : List (String × Json)) : ReadsTexts entries (entries.mapM entryText) := by
  induction entries with
  | nil => exact .texts .nil
  | cons entry entries ih =>
    obtain ⟨literal, value⟩ := entry
    rw [List.mapM_cons]
    obtain ⟨text, htext, heq⟩ | ⟨hvalue, heq⟩ := entryText_cases literal value
    · rw [heq]
      generalize entries.mapM entryText = result at ih
      cases ih with
      | texts h => exact .texts (.cons ⟨rfl, htext⟩ h)
      | notText hentries hbefore hvalue =>
        exact .notText (congrArg ((literal, value) :: ·) hentries) (List.forall_mem_cons.mpr ⟨⟨text, htext⟩, hbefore⟩) hvalue
    · rw [heq]
      exact .notText (List.nil_append _).symm (List.forall_mem_nil _) hvalue

/-! ## Tables that are built -/

/-- A table is built when all substitutes are legal, and otherwise one that is not is reported. -/
theorem ofEntries_cases (entries : List (String × String)) :
    (∀ e ∈ entries, Terminal.isLegal e.2 = true) ∧ ofEntries entries = .ok ⟨entries⟩ ∨
      ∃ literal replacement, (literal, replacement) ∈ entries ∧ Terminal.isLegal replacement = false ∧
        ofEntries entries = .error (.illegalReplacement literal replacement) := by
  unfold ofEntries
  cases hfind : entries.find? fun e => !Terminal.isLegal e.2 with
  | none => exact .inl ⟨fun e he => by simpa using List.find?_eq_none.mp hfind e he, rfl⟩
  | some e => exact .inr ⟨e.1, e.2, List.mem_of_find?_eq_some hfind, by simpa using List.find?_some hfind, rfl⟩

/-! ## The fields of a document -/

variable {fields : List (List Char × Json)}

/-- Whether the fields of an object bind a literal to a text. -/
def Binds (fields : List (List Char × Json)) (literal replacement : String) : Prop :=
  ∃ value, LastValue fields literal value ∧ IsText value replacement

/-- Whether all last values of the keys are texts. -/
def AllTexts (fields : List (List Char × Json)) : Prop :=
  ∀ literal value, LastValue fields literal value → ∃ text, IsText value text

/-- Whether a key is the first in order whose last value is no text. -/
def IsFirstNonText (fields : List (List Char × Json)) (literal : String) : Prop :=
  (∃ value, LastValue fields literal value ∧ ∀ text, ¬IsText value text) ∧
    ∀ other value, LastValue fields other value → (∀ text, ¬IsText value text) → literal ≤ other

theorem IsFirstNonText.unique {literal literal' : String} (h : IsFirstNonText fields literal)
    (h' : IsFirstNonText fields literal') : literal = literal' := by
  obtain ⟨⟨value, hlast, hvalue⟩, hfirst⟩ := h
  obtain ⟨⟨value', hlast', hvalue'⟩, hfirst'⟩ := h'
  exact le_antisymm (hfirst _ _ hlast' hvalue') (hfirst' _ _ hlast hvalue)

/-- What the fields of an object are read as, before legality is checked. -/
inductive ReadsFields (fields : List (List Char × Json)) : Except Error (List (String × String)) → Prop
  | texts {pairs : List (String × String)} (hkeys : (pairs.map Prod.fst).Nodup)
      (hpairs : ∀ literal replacement, (literal, replacement) ∈ pairs ↔ Binds fields literal replacement)
      (htexts : AllTexts fields) : ReadsFields fields (.ok pairs)
  | notText {literal : String} (h : IsFirstNonText fields literal) : ReadsFields fields (.error (.notText literal))

/-- What stands in one of two lists that correspond has a counterpart in the other. -/
theorem exists_of_forall₂ {α β : Type} {R : α → β → Prop} {xs : List α} {ys : List β} (h : List.Forall₂ R xs ys) {x : α}
    (hx : x ∈ xs) : ∃ y ∈ ys, R x y := by
  induction h with
  | nil => cases hx
  | cons hhead _ ih =>
    obtain rfl | hx := List.mem_cons.mp hx
    · exact ⟨_, List.mem_cons_self, hhead⟩
    · obtain ⟨y, hy, hr⟩ := ih hx
      exact ⟨y, List.mem_cons_of_mem _ hy, hr⟩

theorem readsFields_entries (fields : List (List Char × Json)) :
    ReadsFields fields ((Json.entries fields).mapM entryText) := by
  have hascending := Json.ascending_entries fields
  have hreads := readsTexts_mapM (Json.entries fields)
  generalize (Json.entries fields).mapM entryText = result at hreads
  cases hreads with
  | @texts pairs h =>
    have hkeys : (Json.entries fields).map Prod.fst = pairs.map Prod.fst := by
      rw [← List.forall₂_eq_eq_eq, List.forall₂_map_left_iff, List.forall₂_map_right_iff]
      exact h.imp fun _ _ h => h.1.symm
    have hentry {literal : String} {value : Json} (hlast : LastValue fields literal value) :
        ∃ text, (literal, text) ∈ pairs ∧ IsText value text := by
      obtain ⟨⟨_, text⟩, hmem, rfl, htext⟩ := exists_of_forall₂ h (Json.mem_entries_iff.mpr hlast)
      exact ⟨text, hmem, htext⟩
    refine .texts (hkeys ▸ List.pairwise_map.mpr (hascending.imp ne_of_lt)) (fun literal replacement => ⟨fun hmem => ?_, ?_⟩) ?_
    · obtain ⟨⟨_, value⟩, hmem, rfl, htext⟩ := exists_of_forall₂ h.flip hmem
      exact ⟨value, Json.mem_entries_iff.mp hmem, htext⟩
    · rintro ⟨value, hlast, htext⟩
      obtain ⟨text, hmem, htext'⟩ := hentry hlast
      exact htext.unique htext' ▸ hmem
    · intro literal value hlast
      obtain ⟨text, -, htext⟩ := hentry hlast
      exact ⟨text, htext⟩
  | @notText before after literal value heq hbefore hvalue =>
    refine .notText ⟨⟨value, Json.mem_entries_iff.mp (heq ▸ by simp), hvalue⟩, fun other value' hlast hnot => ?_⟩
    -- the entries are in order: before the refused one all are texts, and after it all keys are greater
    have hmem := Json.mem_entries_iff.mpr hlast
    rw [heq] at hmem hascending
    obtain hmem | hmem := List.mem_append.mp hmem
    · obtain ⟨text, htext⟩ := hbefore _ hmem
      exact (hnot text htext).elim
    · obtain heq | hmem := List.mem_cons.mp hmem
      · cases heq
        exact le_rfl
      · exact le_of_lt ((List.pairwise_cons.mp (List.pairwise_append.mp hascending).2.1).1 _ hmem)

/-- Whether all last values of the keys are legal texts. -/
def AllLegal (fields : List (List Char × Json)) : Prop :=
  ∀ literal value, LastValue fields literal value → ∃ text, IsText value text ∧ Terminal.isLegal text = true

theorem IsFirstNonText.not_allTexts {literal : String} (h : IsFirstNonText fields literal) : ¬AllTexts fields := by
  obtain ⟨⟨value, hlast, hvalue⟩, -⟩ := h
  intro htexts
  obtain ⟨text, htext⟩ := htexts literal value hlast
  exact hvalue text htext

theorem AllLegal.allTexts (h : AllLegal fields) : AllTexts fields := fun literal value hlast =>
  (h literal value hlast).imp fun _ => And.left

theorem allLegal_iff : AllLegal fields ↔
    AllTexts fields ∧ ∀ literal replacement, Binds fields literal replacement → Terminal.isLegal replacement = true := by
  constructor
  · refine fun h => ⟨h.allTexts, ?_⟩
    rintro literal replacement ⟨value, hlast, htext⟩
    obtain ⟨text, htext', hlegal⟩ := h literal value hlast
    exact htext.unique htext' ▸ hlegal
  · rintro ⟨htexts, hlegal⟩ literal value hlast
    obtain ⟨text, htext⟩ := htexts literal value hlast
    exact ⟨text, htext, hlegal literal text ⟨value, hlast, htext⟩⟩

/-! ## Reading a table -/

/-- Whether a table has just the bindings of an object. -/
def HasBindings (table : Substitutions) (fields : List (List Char × Json)) : Prop :=
  ∀ literal replacement, table.lookup? literal = some replacement ↔ Binds fields literal replacement

/-- What the fields of an object are read as. -/
inductive ReadsTable (fields : List (List Char × Json)) : Except Error Substitutions → Prop
  | notText {literal : String} (h : IsFirstNonText fields literal) : ReadsTable fields (.error (.notText literal))
  | illegal (htexts : AllTexts fields) {literal replacement : String} (hbinds : Binds fields literal replacement)
      (hillegal : Terminal.isLegal replacement = false) : ReadsTable fields (.error (.illegalReplacement literal replacement))
  | table (hlegal : AllLegal fields) {table : Substitutions} (h : table.HasBindings fields) : ReadsTable fields (.ok table)

theorem readsTable_of_isDocument {text : String} (h : IsDocument text (.object fields)) : ReadsTable fields (ofJson text) := by
  rw [ofJson, Json.value?_eq_some_iff.mpr h]
  have hreads := readsFields_entries fields
  dsimp only
  generalize (Json.entries fields).mapM entryText = result at hreads
  cases hreads with
  | @texts pairs hkeys hpairs htexts =>
    show ReadsTable fields (ofEntries pairs)
    obtain ⟨hlegal, heq⟩ | ⟨literal, replacement, hmem, hillegal, heq⟩ := ofEntries_cases pairs
    · rw [heq]
      refine .table (allLegal_iff.mpr ⟨htexts, fun literal replacement hbinds => ?_⟩) fun literal replacement => ?_
      · exact hlegal _ ((hpairs literal replacement).mpr hbinds)
      · exact (lookup?_eq_some_iff hkeys).trans (hpairs literal replacement)
    · rw [heq]
      exact .illegal htexts ((hpairs literal replacement).mp hmem) hillegal
  | notText h => exact .notText h

/-- A text that is no object is refused as it stands. -/
theorem malformed_of_not_isDocument {text : String} (h : ∀ fields, ¬IsDocument text (.object fields)) :
    ∃ reason, ofJson text = .error (.malformed reason) := by
  unfold ofJson
  split
  · exact ⟨_, rfl⟩
  · next fields hvalue => exact (h fields (Json.value?_eq_some_iff.mp hvalue)).elim
  · exact ⟨_, rfl⟩

namespace ReadsTable

variable {result : Except Error Substitutions}

theorem exists_ok_iff (h : ReadsTable fields result) : (∃ table, result = .ok table) ↔ AllLegal fields := by
  cases h with
  | notText h => simp [mt AllLegal.allTexts h.not_allTexts]
  | illegal _ hbinds hillegal =>
    have hnot : ¬AllLegal fields := fun h => by simp [(allLegal_iff.mp h).2 _ _ hbinds] at hillegal
    simp [hnot]
  | table hlegal _ => simp [hlegal]

theorem notText_iff (h : ReadsTable fields result) (literal : String) :
    result = .error (.notText literal) ↔ IsFirstNonText fields literal := by
  have hnot (htexts : AllTexts fields) : ¬IsFirstNonText fields literal := fun h => h.not_allTexts htexts
  cases h with
  | @notText first h =>
    simp only [Except.error.injEq, Error.notText.injEq]
    exact ⟨fun heq => heq ▸ h, h.unique⟩
  | illegal htexts _ _ => simp [hnot htexts]
  | table hlegal _ => simp [hnot hlegal.allTexts]

theorem exists_illegal_iff (h : ReadsTable fields result) :
    (∃ literal replacement, result = .error (.illegalReplacement literal replacement)) ↔
      AllTexts fields ∧ ¬AllLegal fields := by
  have hok := h.exists_ok_iff
  cases h with
  | notText h => simp [h.not_allTexts]
  | illegal htexts _ _ => simp [htexts, ← hok]
  | table hlegal _ => simp [hlegal]

theorem ne_malformed (h : ReadsTable fields result) (reason : String) : result ≠ .error (.malformed reason) := by
  cases h <;> simp

theorem binds_of_illegal (h : ReadsTable fields result) {literal replacement : String}
    (heq : result = .error (.illegalReplacement literal replacement)) :
    Binds fields literal replacement ∧ Terminal.isLegal replacement = false := by
  cases h with
  | notText => cases heq
  | illegal _ hbinds hillegal =>
    cases heq
    exact ⟨hbinds, hillegal⟩
  | table => cases heq

theorem hasBindings (h : ReadsTable fields result) {table : Substitutions} (heq : result = .ok table) :
    table.HasBindings fields := by
  cases h with
  | notText => cases heq
  | illegal => cases heq
  | table _ h =>
    cases heq
    exact h

end ReadsTable

/-! ## Using a table -/

/-- Whether a literal is called as it has to be by a table with the bindings of an object: a legal literal by itself,
another one by what it is bound to, and not at all if it is not bound. -/
structure Named (fields : List (List Char × Json)) (literal : String) (result : Except Error String) : Prop where
  of_legal : Terminal.isLegal literal = true → result = .ok literal
  of_bound : Terminal.isLegal literal = false → ∀ replacement, Binds fields literal replacement → result = .ok replacement
  of_unbound : Terminal.isLegal literal = false → (∀ value, ¬LastValue fields literal value) →
    result = .error (.missingEntry literal)

theorem HasBindings.named {table : Substitutions} (h : table.HasBindings fields) (literal : String) (log : Log) :
    Named fields literal ((table.normalize literal).run log).1 := by
  rw [normalize_run]
  refine ⟨fun hlegal => ?_, fun hillegal replacement hbinds => ?_, fun hillegal hunbound => ?_⟩
  · exact normalized_eq_ok_iff.mpr (.inl ⟨hlegal, rfl⟩)
  · exact normalized_eq_ok_iff.mpr (.inr ⟨hillegal, (h literal replacement).mpr hbinds⟩)
  · refine normalized_eq_error_iff.mpr ⟨rfl, hillegal, Option.eq_none_iff_forall_ne_some.mpr fun replacement hlookup => ?_⟩
    obtain ⟨value, hlast, -⟩ := (h literal replacement).mp hlookup
    exact hunbound value hlast

/-- A text is one document at most. -/
theorem exists_document_iff {text : String} (h : IsDocument text (.object fields)) {P : List (List Char × Json) → Prop} :
    (∃ fields, IsDocument text (.object fields) ∧ P fields) ↔ P fields := by
  refine ⟨?_, fun hp => ⟨fields, h, hp⟩⟩
  rintro ⟨fields', h', hp⟩
  cases (Json.value?_eq_some_iff.mpr h).symm.trans (Json.value?_eq_some_iff.mpr h')
  exact hp

/-- **Reading a table and using it.** A table is read from a text exactly when the text is an object whose keys all have
legal texts as their last values. A text that is no object is malformed; of an object the first key in order is reported
whose last value is no text, and only if there is none a binding to a text that is not legal. A table that is read calls
a legal literal by itself and another one by what it is bound to. What it calls a literal is legal, so no table calls it
by anything else. -/
theorem ofJson_normalize (text : String) :
    ((∃ table, ofJson text = .ok table) ↔ ∃ fields, IsDocument text (.object fields) ∧ AllLegal fields) ∧
      ((∃ reason, ofJson text = .error (.malformed reason)) ↔ ¬∃ fields, IsDocument text (.object fields)) ∧
      (∀ literal, ofJson text = .error (.notText literal) ↔
        ∃ fields, IsDocument text (.object fields) ∧ IsFirstNonText fields literal) ∧
      ((∃ literal replacement, ofJson text = .error (.illegalReplacement literal replacement)) ↔
        ∃ fields, IsDocument text (.object fields) ∧ AllTexts fields ∧ ¬AllLegal fields) ∧
      (∀ literal replacement, ofJson text = .error (.illegalReplacement literal replacement) →
        ∃ fields, IsDocument text (.object fields) ∧ Binds fields literal replacement ∧
          Terminal.isLegal replacement = false) ∧
      ∀ table, ofJson text = .ok table → ∃ fields, IsDocument text (.object fields) ∧ ∀ literal log,
        Named fields literal ((table.normalize literal).run log).1 ∧
          ∀ name, ((table.normalize literal).run log).1 = .ok name → Terminal.isLegal name = true ∧
            ∀ (other : Substitutions) (log : Log), ((other.normalize name).run log).1 = .ok name := by
  by_cases hdocument : ∃ fields, IsDocument text (.object fields)
  · obtain ⟨fields, hdocument⟩ := hdocument
    have hreads := readsTable_of_isDocument hdocument
    simp only [exists_document_iff hdocument]
    refine ⟨hreads.exists_ok_iff, ?_, hreads.notText_iff, hreads.exists_illegal_iff,
      fun literal replacement heq => hreads.binds_of_illegal heq, fun table heq literal log => ?_⟩
    · exact ⟨fun ⟨reason, heq⟩ => (hreads.ne_malformed reason heq).elim, fun h => (h ⟨fields, hdocument⟩).elim⟩
    · refine ⟨(hreads.hasBindings heq).named literal log, fun name hname => ?_⟩
      rw [normalize_run] at hname
      have hlegal := (legal_of_ofJson heq).isLegal_normalized hname
      refine ⟨hlegal, fun other log => ?_⟩
      rw [normalize_run]
      exact normalized_eq_ok_iff.mpr (.inl ⟨hlegal, rfl⟩)
  · obtain ⟨reason, heq⟩ := malformed_of_not_isDocument (not_exists.mp hdocument)
    simp [heq, not_exists.mp hdocument]

/-- Of two values of a key the last one counts, also when the first is no text. -/
theorem ofJson_normalize_duplicate : ∃ table, ofJson "\x7b\"+\":null,\"+\":\"PLUS\"\x7d" = .ok table ∧
    ∀ log, ((table.normalize "+").run log).1 = .ok "PLUS" := by
  have hspace : Json.IsSpace [] := by decide
  have hplus : Json.IsBody ['+'] := .char (by decide) (by decide) (by decide) .nil
  have hname : Json.IsBody ['P', 'L', 'U', 'S'] :=
    .char (by decide) (by decide) (by decide) <| .char (by decide) (by decide) (by decide) <|
      .char (by decide) (by decide) (by decide) <| .char (by decide) (by decide) (by decide) .nil
  have hkey := Json.WritesKey.mk hspace hplus hspace
  have hwrites := Json.Writes.object hkey hspace .null (.comma hspace hkey hspace (.string hname) (.close hspace))
  have htext : text? ['+'] = some "+" := Json.text?_escape "+"
  have htext' : text? ['P', 'L', 'U', 'S'] = some "PLUS" := Json.text?_escape "PLUS"
  have hdocument : IsDocument "\x7b\"+\":null,\"+\":\"PLUS\"\x7d" _ :=
    ⟨⟨[], _, [], rfl, hspace, hwrites, hspace⟩, by simp [Json.isValue, Json.areFields, Json.nestingLimit, htext, htext']⟩
  have hlast (literal : String) (value : Json) :
      LastValue [(['+'], .null), (['+'], .string ['P', 'L', 'U', 'S'])] literal value ↔
        literal = "+" ∧ value = .string ['P', 'L', 'U', 'S'] := by
    rw [Json.lastValue_iff]
    simp [htext, Json.isLast_cons_iff, Json.not_isLast_nil]
  have hlegal : AllLegal [(['+'], .null), (['+'], .string ['P', 'L', 'U', 'S'])] := by
    intro literal value h
    obtain ⟨-, rfl⟩ := (hlast literal value).mp h
    exact ⟨"PLUS", ⟨_, rfl, htext'⟩, by decide⟩
  obtain ⟨table, htable⟩ := (ofJson_normalize _).1.mpr ⟨_, hdocument, hlegal⟩
  obtain ⟨fields, hfields, hnamed⟩ := (ofJson_normalize _).2.2.2.2.2 table htable
  cases (Json.value?_eq_some_iff.mpr hdocument).symm.trans (Json.value?_eq_some_iff.mpr hfields)
  exact ⟨table, htable, fun log => (hnamed "+" log).1.of_bound (by decide) "PLUS" ⟨_, (hlast _ _).mpr ⟨rfl, rfl⟩, _, rfl, htext'⟩⟩

end Lexeme.Substitutions
