import Lexeme.Json.Value
import Mathlib.Data.List.Forall2

/-!
# Documents that are laid out

A document with white space between its parts is read as the value that its parts make up. The reader keeps a stack of
what is open, so this is said of each part for every stack and for whatever follows (`Reads`): a string is read as its body
(`reads_quoted`), an array as the values of its items (`reads_array`), and an object as its fields (`reads_object`).
-/

namespace Lexeme.Json

/-! ## White space -/

/-- Whether a text is white space. -/
def IsSpace (s : List Char) : Prop := ∀ c ∈ s, isSpace c = true

instance (s : List Char) : Decidable (IsSpace s) := decidable_of_iff (s.all isSpace = true) List.all_eq_true

theorem skipSpace_append {space : List Char} (h : IsSpace space) (s : List Char) : skipSpace (space ++ s) = skipSpace s :=
  List.dropWhile_append_of_pos h

/-- What follows a text does not matter for its first character that is no white space. -/
theorem skipSpace_append_of_cons {s tail : List Char} {c : Char} (h : skipSpace s = c :: tail) (rest : List Char) :
    skipSpace (s ++ rest) = c :: (tail ++ rest) := by
  unfold skipSpace at *
  simp [List.dropWhile_append, h]

theorem skipSpace_cons {c : Char} (h : isSpace c = false) (s : List Char) : skipSpace (c :: s) = c :: s :=
  List.dropWhile_cons_of_neg (by simp [h])

/-- White space before a mark is skipped. -/
theorem skipSpace_mark {space : List Char} (h : IsSpace space) {c : Char} (hc : isSpace c = false) (s : List Char) :
    skipSpace (space ++ c :: s) = c :: s := by
  rw [skipSpace_append h, skipSpace_cons hc]

/-! ## Strings -/

theorem bodyFrom?_cons {c : Char} (hquote : c ≠ '"') (hbackslash : c ≠ '\\') (hc : 32 ≤ c.toNat) (done rest : List Char) :
    bodyFrom? done (c :: rest) = bodyFrom? (c :: done) rest := by
  rw [bodyFrom?]
  · exact if_neg (by simp [hbackslash, hc])
  · exact hquote
  · exact fun _ _ _ _ _ h => absurd h hbackslash
  · exact fun _ _ h => absurd h hbackslash

/-- The body of a string goes on after an escaped character. -/
theorem bodyFrom?_escapeChar (done rest : List Char) (c : Char) :
    bodyFrom? done (escapeChar c ++ rest) = bodyFrom? ((escapeChar c).reverse ++ done) rest := by
  unfold escapeChar
  split
  · simp [bodyFrom?, plainEscape?]
  split
  · simp [bodyFrom?, plainEscape?]
  split
  · simp [bodyFrom?, plainEscape?]
  split
  · simp [bodyFrom?, plainEscape?]
  split
  · simp [bodyFrom?, plainEscape?]
  split
  · simp [bodyFrom?, plainEscape?]
  split
  · simp [bodyFrom?, plainEscape?]
  split
  · next h => simp [bodyFrom?, hexValue4?_control _ h]
  · next hquote hbackslash _ _ _ _ _ hc => exact bodyFrom?_cons hquote hbackslash (Nat.le_of_not_lt hc) done rest

theorem bodyFrom?_escape (done s rest : List Char) :
    bodyFrom? done (escape s ++ '"' :: rest) = some (done.reverse ++ escape s, rest) := by
  induction s generalizing done with
  | nil => simp [escape, bodyFrom?]
  | cons c s ih =>
    rw [show escape (c :: s) = escapeChar c ++ escape s from rfl, List.append_assoc, bodyFrom?_escapeChar, ih]
    simp

/-- A string as it is written. -/
def quoted (s : List Char) : List Char := '"' :: escape s ++ ['"']

/-- A string is read as the text that it was written for. -/
theorem text?_escape (s : String) : text? (escape s.toList) = some s := by
  simp [text?, unescape_escape]

/-! ## Values -/

/-- Whether a text is read as a value, whatever is open before it and whatever follows it. It is no mark that closes an
array or an object. -/
structure Reads (text : List Char) (value : Json) : Prop where
  begins : ∃ c rest, skipSpace text = c :: rest ∧ c ≠ ']' ∧ c ≠ '}'
  read_eq : ∀ opened rest, read opened (text ++ rest) = resume opened value rest

/-- White space before a value is skipped. -/
theorem Reads.space {space text : List Char} {value : Json} (h : Reads text value) (hspace : IsSpace space) :
    Reads (space ++ text) value := by
  refine ⟨by rw [skipSpace_append hspace]; exact h.begins, fun opened rest => ?_⟩
  rw [← h.read_eq, List.append_assoc, read, read, skipSpace_append hspace]

theorem reads_quoted (s : List Char) : Reads (quoted s) (.string (escape s)) := by
  refine ⟨⟨'"', _, skipSpace_cons rfl _, by decide, by decide⟩, fun opened rest => ?_⟩
  have hskip : skipSpace (quoted s ++ rest) = '"' :: (escape s ++ '"' :: rest) := by
    simp [quoted, skipSpace_cons (show isSpace '"' = false from rfl)]
  have hscalar : scalar? ('"' :: (escape s ++ '"' :: rest)) = some (.string (escape s), rest) := by
    simp [scalar?, bodyFrom?_escape]
  rw [read]
  split
  · next h => rw [hskip] at h; cases h
  · next h => rw [hskip] at h; cases h
  · rw [hskip]
    split
    · next h =>
      rw [hscalar] at h
      cases h
      rfl
    · next h => rw [hscalar] at h; cases h

/-! ## Arrays -/

/-- What stands after the first of several parts with commas between them. -/
theorem intercalate_comma_cons (part : List Char) (parts : List (List Char)) :
    [','].intercalate (part :: parts) = part ++ parts.flatMap (',' :: ·) := by
  induction parts generalizing part with
  | nil => simp
  | cons next parts ih => rw [List.intercalate_cons_cons, ih, List.flatMap_cons, List.append_assoc]; rfl

theorem read_bracket {s : List Char} (hskip : ∀ tail, skipSpace s ≠ ']' :: tail) (opened : List Frame) :
    read opened ('[' :: s) = read (.array [] :: opened) s := by
  rw [read, skipSpace_cons rfl]
  simp only

theorem read_bracket_bracket {s rest : List Char} (h : skipSpace s = ']' :: rest) (opened : List Frame) :
    read opened ('[' :: s) = resume opened (.array []) rest := by
  rw [read, skipSpace_cons rfl]
  simp only
  rw [h]
  rfl

theorem resume_array_comma (items : List Json) (opened : List Frame) (value : Json) (s : List Char) :
    resume (.array items :: opened) value (',' :: s) = read (.array (value :: items) :: opened) s := by
  rw [resume, skipSpace_cons rfl]
  rfl

theorem resume_array_bracket {s rest : List Char} (h : skipSpace s = ']' :: rest) (items : List Json) (opened : List Frame)
    (value : Json) :
    resume (.array items :: opened) value s = resume opened (.array (value :: items).reverse) rest := by
  rw [resume, h]
  rfl

/-- An array goes on with its further items, up to its end. -/
theorem resume_array {texts : List (List Char)} {values : List Json} (h : List.Forall₂ Reads texts values)
    {space : List Char} (hspace : IsSpace space) (items : List Json) (opened : List Frame) (value : Json)
    (rest : List Char) :
    resume (.array items :: opened) value (texts.flatMap (',' :: ·) ++ (space ++ ']' :: rest)) =
      resume opened (.array (items.reverse ++ value :: values)) rest := by
  induction h generalizing items value with
  | nil => simp [resume_array_bracket (skipSpace_mark hspace rfl rest)]
  | @cons text next texts values htext _ ih =>
    rw [List.flatMap_cons, List.append_assoc, List.cons_append, resume_array_comma, htext.read_eq, ih]
    simp

/-- Items with commas between them in brackets are read as an array. -/
theorem reads_array {texts : List (List Char)} {values : List Json} (h : List.Forall₂ Reads texts values)
    {space : List Char} (hspace : IsSpace space) :
    Reads ('[' :: ([','].intercalate texts ++ (space ++ [']']))) (.array values) := by
  refine ⟨⟨'[', _, skipSpace_cons rfl _, by decide, by decide⟩, fun opened rest => ?_⟩
  simp only [List.cons_append, List.append_assoc, List.nil_append]
  cases h with
  | nil => exact read_bracket_bracket (skipSpace_mark hspace rfl rest) opened
  | @cons text value texts values htext htexts =>
    rw [intercalate_comma_cons, List.append_assoc]
    obtain ⟨c, tail, hbegins, hc, -⟩ := htext.begins
    have hskip : ∀ after rest, skipSpace (text ++ after) ≠ ']' :: rest := by
      intro after rest h
      exact hc (List.cons.inj ((skipSpace_append_of_cons hbegins after).symm.trans h)).1
    rw [read_bracket (hskip _), htext.read_eq, resume_array htexts hspace]
    simp

/-! ## Objects -/

/-- Whether a text is a field: white space, the key as a string, a colon, and a text that is read as the value. -/
inductive ReadsField : List Char → List Char × Json → Prop where
  | mk {space : List Char} (hspace : IsSpace space) (key : List Char) {text : List Char} {value : Json}
      (h : Reads text value) : ReadsField (space ++ (quoted key ++ ':' :: text)) (escape key, value)

theorem key?_quoted {space : List Char} (hspace : IsSpace space) (key s : List Char) :
    key? (space ++ (quoted key ++ ':' :: s)) = some (escape key, s) := by
  have hskip : skipSpace (space ++ (quoted key ++ ':' :: s)) = '"' :: (escape key ++ '"' :: ':' :: s) := by
    simpa [quoted] using skipSpace_mark hspace rfl (escape key ++ '"' :: ':' :: s)
  simp [key?, hskip, bodyFrom?_escape, skipSpace_cons (show isSpace ':' = false from rfl)]

theorem read_brace {s rest key : List Char} (hskip : ∀ tail, skipSpace s ≠ '\x7d' :: tail)
    (hkey : key? s = some (key, rest)) (opened : List Frame) :
    read opened ('\x7b' :: s) = read (.object [] key :: opened) rest := by
  rw [read, skipSpace_cons rfl]
  simp only
  split
  · next h =>
    rw [hkey] at h
    cases h
    rfl
  · next h => rw [hkey] at h; cases h

theorem read_brace_brace {s rest : List Char} (h : skipSpace s = '\x7d' :: rest) (opened : List Frame) :
    read opened ('\x7b' :: s) = resume opened (.object []) rest := by
  rw [read, skipSpace_cons rfl]
  simp only
  rw [h]
  rfl

theorem resume_object_comma {s rest next : List Char} (hkey : key? s = some (next, rest))
    (fields : List (List Char × Json)) (key : List Char) (opened : List Frame) (value : Json) :
    resume (.object fields key :: opened) value (',' :: s) =
      read (.object ((key, value) :: fields) next :: opened) rest := by
  rw [resume, skipSpace_cons rfl]
  simp only
  rw [hkey]

theorem resume_object_brace {s rest : List Char} (h : skipSpace s = '\x7d' :: rest) (fields : List (List Char × Json))
    (key : List Char) (opened : List Frame) (value : Json) :
    resume (.object fields key :: opened) value s = resume opened (.object ((key, value) :: fields).reverse) rest := by
  rw [resume, h]
  rfl

/-- An object goes on with its further fields, up to its end. -/
theorem resume_object {texts : List (List Char)} {fields : List (List Char × Json)}
    (h : List.Forall₂ ReadsField texts fields) {space : List Char} (hspace : IsSpace space)
    (done : List (List Char × Json)) (key : List Char) (opened : List Frame) (value : Json) (rest : List Char) :
    resume (.object done key :: opened) value (texts.flatMap (',' :: ·) ++ (space ++ '\x7d' :: rest)) =
      resume opened (.object (done.reverse ++ (key, value) :: fields)) rest := by
  induction h generalizing done key value with
  | nil => simp [resume_object_brace (skipSpace_mark hspace rfl rest)]
  | @cons text field texts fields hfield _ ih =>
    obtain @⟨before, hbefore, next, text, item, htext⟩ := hfield
    simp only [List.flatMap_cons, List.append_assoc, List.cons_append]
    rw [resume_object_comma (key?_quoted hbefore next _), htext.read_eq, ih]
    simp

/-- Fields with commas between them in braces are read as an object. -/
theorem reads_object {texts : List (List Char)} {fields : List (List Char × Json)}
    (h : List.Forall₂ ReadsField texts fields) {space : List Char} (hspace : IsSpace space) :
    Reads ('\x7b' :: ([','].intercalate texts ++ (space ++ ['\x7d']))) (.object fields) := by
  refine ⟨⟨'\x7b', _, skipSpace_cons rfl _, by decide, by decide⟩, fun opened rest => ?_⟩
  simp only [List.cons_append, List.append_assoc, List.nil_append]
  cases h with
  | nil => exact read_brace_brace (skipSpace_mark hspace rfl rest) opened
  | @cons text field texts fields hfield hfields =>
    obtain @⟨before, hbefore, key, text, value, htext⟩ := hfield
    rw [intercalate_comma_cons]
    simp only [List.append_assoc, List.cons_append]
    have hskip : ∀ after tail, skipSpace (before ++ (quoted key ++ after)) ≠ '\x7d' :: tail := by
      intro after tail h
      cases (skipSpace_mark hbefore rfl _).symm.trans h
    rw [read_brace (hskip _) (key?_quoted hbefore key _), htext.read_eq, resume_object hfields hspace]
    simp

/-! ## Documents -/

/-- A field with its text on a line. -/
theorem readsField_quoted {space : List Char} (hspace : IsSpace space) (key literal : String) :
    ReadsField (space ++ (quoted key.toList ++ ':' :: ' ' :: quoted literal.toList))
      (escape key.toList, .string (escape literal.toList)) :=
  .mk hspace key.toList ((reads_quoted literal.toList).space (show IsSpace [' '] by decide))

/-- Parts on lines of their own, with a comma after each but the last. -/
theorem toList_intercalate_lines (line : String) (lines : List String) :
    '\n' :: (",\n".intercalate (line :: lines)).toList =
      [','].intercalate ((line :: lines).map fun line => '\n' :: line.toList) := by
  rw [String.toList_intercalate]
  induction lines generalizing line with
  | nil => simp
  | cons next lines ih =>
    have hlines := ih next
    simp only [List.map_cons] at hlines ⊢
    rw [List.intercalate_cons_cons, List.intercalate_cons_cons, ← hlines]
    simp

/-- A text that is read as a value is a document, with white space after it or without. -/
theorem Reads.parse?_eq {s : String} {text space : List Char} {value : Json} (h : Reads text value)
    (hspace : IsSpace space) (hs : s.toList = text ++ space) : parse? s = some value := by
  have hskip : skipSpace space = [] := by
    rw [← List.append_nil space, skipSpace_append hspace]
    rfl
  rw [parse?, hs, h.read_eq, resume, if_pos hskip]

end Lexeme.Json
