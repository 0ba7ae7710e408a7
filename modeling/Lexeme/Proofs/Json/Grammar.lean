import Mathlib.Data.List.TakeWhile
import Lexeme.Proofs.Json.Scalars

/-!
# Documents as they are written

`Writes` says by rules, without the reader, which texts write a value: white space may stand before and after a value and
a mark, and nowhere else. The reader accepts just these texts, and finds the value that is written (`parse?_eq_some_iff`).

In one direction a text that writes a value is read as it, whatever is open, up to what does not go on with it
(`Writes.read_eq`). In the other direction the induction is on the run of the reader, and what is read so far says of the
rest how it closes all that is open (`Closes`).
-/

namespace Lexeme.Json

/-! ## The rules -/

/-- How the key of a field is written: as a string, and with a colon after it. -/
inductive WritesKey : List Char → List Char → Prop
  | mk {before key after : List Char} (hbefore : IsSpace before) (hkey : IsBody key) (hafter : IsSpace after) :
      WritesKey key (before ++ '"' :: (key ++ '"' :: (after ++ [':'])))

mutual

/-- How a value is written. -/
inductive Writes : Json → List Char → Prop
  | null : Writes .null ['n', 'u', 'l', 'l']
  | isTrue : Writes (.bool true) ['t', 'r', 'u', 'e']
  | isFalse : Writes (.bool false) ['f', 'a', 'l', 's', 'e']
  | number {n : Number} {w : List Char} (h : WritesNumber n w) : Writes (.number n) w
  | string {body : List Char} (h : IsBody body) : Writes (.string body) ('"' :: (body ++ ['"']))
  | emptyArray {space : List Char} (hspace : IsSpace space) : Writes (.array []) ('[' :: (space ++ [']']))
  | array {value : Json} {items : List Json} {before w ws : List Char} (hbefore : IsSpace before) (h : Writes value w)
      (hitems : WritesItems items ws) : Writes (.array (value :: items)) ('[' :: (before ++ (w ++ ws)))
  | emptyObject {space : List Char} (hspace : IsSpace space) : Writes (.object []) ('\x7b' :: (space ++ ['\x7d']))
  | object {key : List Char} {value : Json} {fields : List (List Char × Json)} {k before w ws : List Char}
      (hkey : WritesKey key k) (hbefore : IsSpace before) (h : Writes value w) (hfields : WritesFields fields ws) :
      Writes (.object ((key, value) :: fields)) ('\x7b' :: (k ++ (before ++ (w ++ ws))))

/-- How the further items of an array are written, up to its end. -/
inductive WritesItems : List Json → List Char → Prop
  | close {space : List Char} (hspace : IsSpace space) : WritesItems [] (space ++ [']'])
  | comma {value : Json} {items : List Json} {space before w ws : List Char} (hspace : IsSpace space)
      (hbefore : IsSpace before) (h : Writes value w) (hitems : WritesItems items ws) :
      WritesItems (value :: items) (space ++ ',' :: (before ++ (w ++ ws)))

/-- How the further fields of an object are written, up to its end. -/
inductive WritesFields : List (List Char × Json) → List Char → Prop
  | close {space : List Char} (hspace : IsSpace space) : WritesFields [] (space ++ ['\x7d'])
  | comma {key : List Char} {value : Json} {fields : List (List Char × Json)} {space k before w ws : List Char}
      (hspace : IsSpace space) (hkey : WritesKey key k) (hbefore : IsSpace before) (h : Writes value w)
      (hfields : WritesFields fields ws) :
      WritesFields ((key, value) :: fields) (space ++ ',' :: (k ++ (before ++ (w ++ ws))))

end

/-! ## White space and keys -/

/-- What stands before the rest when white space is skipped is white space. -/
theorem exists_space (s : List Char) : ∃ before, s = before ++ skipSpace s ∧ IsSpace before :=
  ⟨s.takeWhile isSpace, List.takeWhile_append_dropWhile.symm, List.all_eq_true.mp List.all_takeWhile⟩

theorem skipSpace_eq_nil_iff {s : List Char} : skipSpace s = [] ↔ IsSpace s := List.dropWhile_eq_nil_iff

/-- The mark that white space is skipped for stands after white space. -/
theorem exists_mark {s rest : List Char} {c : Char} (h : skipSpace s = c :: rest) :
    ∃ before, s = before ++ c :: rest ∧ IsSpace before := by
  obtain ⟨before, hs, hbefore⟩ := exists_space s
  exact ⟨before, h ▸ hs, hbefore⟩

theorem key?_eq_some_iff {s key rest : List Char} :
    key? s = some (key, rest) ↔ ∃ k, s = k ++ rest ∧ WritesKey key k := by
  constructor
  · intro h
    unfold key? at h
    split at h
    · next t ht =>
      split at h
      · next body u hbody =>
        split at h
        · next v hv =>
          cases h
          obtain ⟨before, rfl, hbefore⟩ := exists_mark ht
          obtain ⟨w, rfl, hw, rfl⟩ := bodyFrom?_eq_some_iff.mp hbody
          obtain ⟨after, rfl, hafter⟩ := exists_mark hv
          exact ⟨_, by simp, .mk hbefore hw hafter⟩
        · cases h
      · cases h
    · cases h
  · rintro ⟨k, rfl, hk⟩
    obtain @⟨before, key, after, hbefore, hkey, hafter⟩ := hk
    have hbody : bodyFrom? [] (key ++ '"' :: (after ++ ':' :: rest)) = some (key, after ++ ':' :: rest) :=
      bodyFrom?_eq_some_iff.mpr ⟨key, rfl, hkey, rfl⟩
    simp only [List.append_assoc, List.cons_append, List.nil_append]
    rw [key?, skipSpace_mark hbefore rfl]
    simp [hbody, skipSpace_mark hafter (show isSpace ':' = false from rfl)]

/-! ## Scalars -/

theorem isDigit_ne {c : Char} (h : c.isDigit = true) {d : Char} (hd : d.isDigit = false) : c ≠ d := by
  rintro rfl
  cases h.symm.trans hd

theorem WritesNumber.begins {n : Number} {w : List Char} (h : WritesNumber n w) :
    ∃ c tail, w = c :: tail ∧ (c = '-' ∨ c.isDigit = true) := by
  obtain @⟨negative, whole, fraction, places, power, exponent, hwhole, hfraction, hexponent⟩ := h
  cases negative with
  | true => exact ⟨'-', _, rfl, .inl rfl⟩
  | false =>
    obtain ⟨c, tail, rfl⟩ := List.exists_cons_of_ne_nil hwhole.1.1
    exact ⟨c, _, rfl, .inr (hwhole.1.2 c List.mem_cons_self)⟩

theorem WritesNumber.scalar?_eq {n : Number} {w rest : List Char} (h : WritesNumber n w) (hrest : Ends rest) :
    scalar? (w ++ rest) = some (.number n, rest) := by
  obtain ⟨c, tail, rfl, hc⟩ := h.begins
  have hne {d : Char} (hd : d.isDigit = false) (hminus : '-' ≠ d) : c ≠ d :=
    hc.elim (fun hc => hc ▸ hminus) fun hc => isDigit_ne hc hd
  have hscalar : scalar? (c :: tail ++ rest) =
      (number? (c :: tail ++ rest)).map fun result => (.number result.1, result.2) := by
    unfold scalar?
    split
    · next heq => exact absurd (List.cons.inj heq).1 (hne rfl (by decide))
    · next heq => exact absurd (List.cons.inj heq).1 (hne rfl (by decide))
    · next heq => exact absurd (List.cons.inj heq).1 (hne rfl (by decide))
    · next heq => exact absurd (List.cons.inj heq).1 (hne rfl (by decide))
    · rfl
  rw [hscalar, number?_of_writes h hrest]
  rfl

/-- What is read as a scalar is one as it is written. -/
theorem exists_writes_of_scalar? {s rest : List Char} {value : Json} (h : scalar? s = some (value, rest)) :
    ∃ w, s = w ++ rest ∧ Writes value w := by
  unfold scalar? at h
  split at h
  · cases h
    exact ⟨_, rfl, .null⟩
  · cases h
    exact ⟨_, rfl, .isTrue⟩
  · cases h
    exact ⟨_, rfl, .isFalse⟩
  · obtain ⟨⟨body, after⟩, hbody, heq⟩ := Option.map_eq_some_iff.mp h
    cases heq
    obtain ⟨w, rfl, hw, rfl⟩ := bodyFrom?_eq_some_iff.mp hbody
    exact ⟨_, by simp, .string hw⟩
  · obtain ⟨⟨n, after⟩, hn, heq⟩ := Option.map_eq_some_iff.mp h
    cases heq
    obtain ⟨w, rfl, hw⟩ := exists_writesNumber hn
    exact ⟨w, rfl, .number hw⟩

/-- A value begins with what is neither white space nor the end of an array. -/
theorem Writes.begins {value : Json} {w : List Char} (h : Writes value w) :
    ∃ c tail, w = c :: tail ∧ isSpace c = false ∧ c ≠ ']' := by
  cases h with
  | number h =>
    obtain ⟨c, tail, rfl, hc⟩ := h.begins
    refine ⟨c, tail, rfl, ?_⟩
    obtain rfl | hc := hc
    · decide
    · simp [isSpace, isDigit_ne hc]
  | _ => exact ⟨_, _, rfl, by decide⟩

/-! ## What is written is read -/

theorem Ends.cons {c : Char} (hdigit : c.isDigit = false) (hc : c ∉ ['.', 'e', 'E']) (s : List Char) : Ends (c :: s) := by
  intro d hd
  cases hd
  exact ⟨hdigit, hc⟩

/-- A number ends before white space. -/
theorem Ends.space {before : List Char} (hbefore : IsSpace before) {s : List Char} (h : Ends s) : Ends (before ++ s) := by
  cases before with
  | nil => exact h
  | cons c before =>
    have hc : isSpace c = true := hbefore c List.mem_cons_self
    simp only [isSpace, Bool.or_eq_true, decide_eq_true_eq] at hc
    obtain ((rfl | rfl) | rfl) | rfl := hc <;> exact .cons rfl (by decide) _

theorem read_space {before : List Char} (hbefore : IsSpace before) (opened : List Frame) (s : List Char) :
    read opened (before ++ s) = read opened s := by
  rw [read, read, skipSpace_append hbefore]

theorem resume_space {before : List Char} (hbefore : IsSpace before) (opened : List Frame) (value : Json) (s : List Char) :
    resume opened value (before ++ s) = resume opened value s := by
  rw [resume.eq_def, resume.eq_def, skipSpace_append hbefore]

theorem read_scalar {s rest : List Char} {value : Json} (h : scalar? (skipSpace s) = some (value, rest)) (opened : List Frame) :
    read opened s = resume opened value rest := by
  rw [read]
  split
  · next heq =>
    rw [heq] at h
    cases h
  · next heq =>
    rw [heq] at h
    cases h
  · split
    · next heq =>
      cases h.symm.trans heq
      rfl
    · next heq => cases h.symm.trans heq

theorem WritesItems.ends {items : List Json} {ws : List Char} (h : WritesItems items ws) (rest : List Char) :
    Ends (ws ++ rest) := by
  cases h with
  | close hspace =>
    rw [List.append_assoc]
    exact .space hspace (.cons rfl (by decide) _)
  | comma hspace _ _ _ =>
    rw [List.append_assoc]
    exact .space hspace (.cons rfl (by decide) _)

theorem WritesFields.ends {fields : List (List Char × Json)} {ws : List Char} (h : WritesFields fields ws)
    (rest : List Char) : Ends (ws ++ rest) := by
  cases h with
  | close hspace =>
    rw [List.append_assoc]
    exact .space hspace (.cons rfl (by decide) _)
  | comma hspace _ _ _ _ =>
    rw [List.append_assoc]
    exact .space hspace (.cons rfl (by decide) _)

theorem Writes.skipSpace_ne {value : Json} {w : List Char} (h : Writes value w) {before : List Char}
    (hbefore : IsSpace before) (rest tail : List Char) : skipSpace (before ++ (w ++ rest)) ≠ ']' :: tail := by
  obtain ⟨c, tail, rfl, hc, hbracket⟩ := h.begins
  intro heq
  exact hbracket (List.cons.inj ((skipSpace_mark hbefore hc _).symm.trans heq)).1

theorem WritesKey.skipSpace_ne {key k : List Char} (h : WritesKey key k) (rest tail : List Char) :
    skipSpace (k ++ rest) ≠ '\x7d' :: tail := by
  obtain @⟨before, key, after, hbefore, -, -⟩ := h
  intro heq
  rw [List.append_assoc] at heq
  cases (skipSpace_mark hbefore rfl _).symm.trans heq

mutual

/-- A text that writes a value is read as it, whatever is open, up to what does not go on with it. -/
theorem Writes.read_eq {value : Json} {w : List Char} (h : Writes value w) (opened : List Frame) {rest : List Char}
    (hrest : Ends rest) : read opened (w ++ rest) = resume opened value rest := by
  cases h with
  | null => exact read_scalar rfl opened
  | isTrue => exact read_scalar rfl opened
  | isFalse => exact read_scalar rfl opened
  | number hn =>
    refine read_scalar ?_ opened
    obtain ⟨c, tail, rfl, hc, -⟩ := (Writes.number hn).begins
    rw [List.cons_append, skipSpace_cons hc]
    exact hn.scalar?_eq hrest
  | string hbody =>
    refine read_scalar ?_ opened
    rw [List.cons_append, skipSpace_cons rfl, scalar?, bodyFrom?_eq_some_iff.mpr ⟨_, List.append_assoc .., hbody, rfl⟩]
    rfl
  | emptyArray hspace =>
    rw [List.cons_append, List.append_assoc]
    exact read_bracket_bracket (skipSpace_mark hspace rfl rest) opened
  | array hbefore hvalue hitems =>
    simp only [List.cons_append, List.append_assoc]
    rw [read_bracket (hvalue.skipSpace_ne hbefore _), read_space hbefore, hvalue.read_eq _ (hitems.ends rest),
      hitems.resume_eq]
    rfl
  | emptyObject hspace =>
    rw [List.cons_append, List.append_assoc]
    exact read_brace_brace (skipSpace_mark hspace rfl rest) opened
  | object hkey hbefore hvalue hfields =>
    simp only [List.cons_append, List.append_assoc]
    rw [read_brace (hkey.skipSpace_ne _) (key?_eq_some_iff.mpr ⟨_, rfl, hkey⟩), read_space hbefore,
      hvalue.read_eq _ (hfields.ends rest), hfields.resume_eq]
    rfl

theorem WritesItems.resume_eq {items : List Json} {ws : List Char} (h : WritesItems items ws) (done : List Json)
    (opened : List Frame) (value : Json) (rest : List Char) :
    resume (.array done :: opened) value (ws ++ rest) = resume opened (.array (done.reverse ++ value :: items)) rest := by
  cases h with
  | close hspace =>
    simp only [List.append_assoc, List.cons_append, List.nil_append]
    rw [resume_array_bracket (skipSpace_mark hspace rfl rest)]
    simp
  | comma hspace hbefore hvalue hitems =>
    simp only [List.cons_append, List.append_assoc]
    rw [resume_space hspace, resume_array_comma, read_space hbefore, hvalue.read_eq _ (hitems.ends rest), hitems.resume_eq]
    simp

theorem WritesFields.resume_eq {fields : List (List Char × Json)} {ws : List Char} (h : WritesFields fields ws)
    (done : List (List Char × Json)) (key : List Char) (opened : List Frame) (value : Json) (rest : List Char) :
    resume (.object done key :: opened) value (ws ++ rest) =
      resume opened (.object (done.reverse ++ (key, value) :: fields)) rest := by
  cases h with
  | close hspace =>
    simp only [List.append_assoc, List.cons_append, List.nil_append]
    rw [resume_object_brace (skipSpace_mark hspace rfl rest)]
    simp
  | comma hspace hkey hbefore hvalue hfields =>
    simp only [List.cons_append, List.append_assoc]
    rw [resume_space hspace, resume_object_comma (key?_eq_some_iff.mpr ⟨_, rfl, hkey⟩), read_space hbefore,
      hvalue.read_eq _ (hfields.ends rest), hfields.resume_eq]
    simp

end

/-! ## What is read is written -/

/-- What a text has to be to close all that is open, after a value that has just ended, for the document `result`. -/
def Closes : List Frame → Json → List Char → Json → Prop
  | [], value, s, result => IsSpace s ∧ value = result
  | .array done :: opened, value, s, result => ∃ items ws rest, s = ws ++ rest ∧ WritesItems items ws ∧
      Closes opened (.array (done.reverse ++ value :: items)) rest result
  | .object done key :: opened, value, s, result => ∃ fields ws rest, s = ws ++ rest ∧ WritesFields fields ws ∧
      Closes opened (.object (done.reverse ++ (key, value) :: fields)) rest result

/-- What a text has to be where a value is due: white space, the value, and what closes all that is open. -/
def Opens (opened : List Frame) (s : List Char) (result : Json) : Prop :=
  ∃ before value w rest, s = before ++ (w ++ rest) ∧ IsSpace before ∧ Writes value w ∧ Closes opened value rest result

section

variable {opened : List Frame} {result value : Json} {before s : List Char} (hbefore : IsSpace before)

include hbefore

theorem Opens.array (h : Opens (.array [] :: opened) s result) : Opens opened (before ++ '[' :: s) result := by
  obtain ⟨space, value, w, rest, rfl, hspace, hvalue, items, ws, rest, rfl, hitems, hcloses⟩ := h
  exact ⟨before, _, _, rest, by simp, hbefore, .array hspace hvalue hitems, hcloses⟩

theorem Opens.object {key k : List Char} (hkey : WritesKey key k) (h : Opens (.object [] key :: opened) s result) :
    Opens opened (before ++ '\x7b' :: (k ++ s)) result := by
  obtain ⟨space, value, w, rest, rfl, hspace, hvalue, fields, ws, rest, rfl, hfields, hcloses⟩ := h
  exact ⟨before, _, _, rest, by simp, hbefore, .object hkey hspace hvalue hfields, hcloses⟩

theorem Closes.arrayComma {done : List Json} (h : Opens (.array (value :: done) :: opened) s result) :
    Closes (.array done :: opened) value (before ++ ',' :: s) result := by
  obtain ⟨space, next, w, rest, rfl, hspace, hnext, items, ws, rest, rfl, hitems, hcloses⟩ := h
  exact ⟨_, _, rest, by simp, .comma hbefore hspace hnext hitems, by simpa using hcloses⟩

theorem Closes.arrayBracket {done : List Json} (h : Closes opened (.array (value :: done).reverse) s result) :
    Closes (.array done :: opened) value (before ++ ']' :: s) result :=
  ⟨[], _, s, by simp, .close hbefore, by simpa using h⟩

theorem Closes.objectComma {done : List (List Char × Json)} {key next k : List Char} (hkey : WritesKey next k)
    (h : Opens (.object ((key, value) :: done) next :: opened) s result) :
    Closes (.object done key :: opened) value (before ++ ',' :: (k ++ s)) result := by
  obtain ⟨space, item, w, rest, rfl, hspace, hitem, fields, ws, rest, rfl, hfields, hcloses⟩ := h
  exact ⟨_, _, rest, by simp, .comma hbefore hkey hspace hitem hfields, by simpa using hcloses⟩

theorem Closes.objectBrace {done : List (List Char × Json)} {key : List Char}
    (h : Closes opened (.object ((key, value) :: done).reverse) s result) :
    Closes (.object done key :: opened) value (before ++ '\x7d' :: s) result :=
  ⟨[], _, s, by simp, .close hbefore, by simpa using h⟩

end

/-- By induction on the run of the reader: where it finds a document, what is left of the text is as the stack demands. -/
theorem reads_written :
    (∀ opened s, ∀ result, read opened s = some result → Opens opened s result) ∧
      ∀ opened value s, ∀ result, resume opened value s = some result → Closes opened value s result := by
  refine read.mutual_induct (fun opened s => ∀ result, read opened s = some result → Opens opened s result)
    (fun opened value s => ∀ result, resume opened value s = some result → Closes opened value s result)
    ?emptyArray ?array ?emptyObject ?object ?noKey ?scalar ?noScalar ?finish ?noFinish ?arrayComma ?arrayClose ?noArray
    ?objectComma ?noComma ?objectClose ?noObject
  case emptyArray =>
    intro opened s t hs u ht ih result h
    obtain ⟨before, rfl, hbefore⟩ := exists_mark hs
    obtain ⟨space, rfl, hspace⟩ := exists_mark ht
    rw [read_space hbefore, read_bracket_bracket ht] at h
    exact ⟨before, _, _, u, by simp, hbefore, .emptyArray hspace, ih result h⟩
  case array =>
    intro opened s t hs hne ih result h
    obtain ⟨before, rfl, hbefore⟩ := exists_mark hs
    rw [read_space hbefore, read_bracket hne] at h
    exact .array hbefore (ih result h)
  case emptyObject =>
    intro opened s t hs u ht ih result h
    obtain ⟨before, rfl, hbefore⟩ := exists_mark hs
    obtain ⟨space, rfl, hspace⟩ := exists_mark ht
    rw [read_space hbefore, read_brace_brace ht] at h
    exact ⟨before, _, _, u, by simp, hbefore, .emptyObject hspace, ih result h⟩
  case object =>
    intro opened s t hs key u hkey hne ih result h
    obtain ⟨before, rfl, hbefore⟩ := exists_mark hs
    rw [read_space hbefore, read_brace hne hkey] at h
    obtain ⟨k, rfl, hk⟩ := key?_eq_some_iff.mp hkey
    exact .object hbefore hk (ih result h)
  case noKey =>
    intro opened s t hs hkey hne result h
    obtain ⟨before, rfl, hbefore⟩ := exists_mark hs
    rw [read_space hbefore, read, skipSpace_cons rfl] at h
    simp only at h
    split at h
    · next heq => cases hkey.symm.trans heq
    · cases h
  case scalar =>
    intro opened s value rest _ _ hscalar ih result h
    rw [read_scalar hscalar] at h
    obtain ⟨before, hs, hbefore⟩ := exists_space s
    obtain ⟨w, hw, hvalue⟩ := exists_writes_of_scalar? hscalar
    exact ⟨before, value, w, rest, hw ▸ hs, hbefore, hvalue, ih result h⟩
  case noScalar =>
    intro opened s hbracket hbrace hscalar result h
    rw [read] at h
    split at h
    · next heq => exact (hbracket _ heq).elim
    · next heq => exact (hbrace _ heq).elim
    · split at h
      · next heq => cases hscalar.symm.trans heq
      · cases h
  case finish =>
    intro value s hs result h
    rw [resume, if_pos hs] at h
    cases h
    exact ⟨skipSpace_eq_nil_iff.mp hs, rfl⟩
  case noFinish =>
    intro value s hs result h
    rw [resume, if_neg hs] at h
    cases h
  case arrayComma =>
    intro value s done opened t hs ih result h
    obtain ⟨space, rfl, hspace⟩ := exists_mark hs
    rw [resume_space hspace, resume_array_comma] at h
    exact .arrayComma hspace (ih result h)
  case arrayClose =>
    intro value s done opened t hs ih result h
    obtain ⟨space, rfl, hspace⟩ := exists_mark hs
    rw [resume_array_bracket hs] at h
    exact .arrayBracket hspace (ih result h)
  case noArray =>
    intro value s done opened hcomma hbracket result h
    rw [resume] at h
    split at h
    · next heq => exact (hcomma _ heq).elim
    · next heq => exact (hbracket _ heq).elim
    · cases h
  case objectComma =>
    intro value s done key opened t hs next u hkey ih result h
    obtain ⟨space, rfl, hspace⟩ := exists_mark hs
    rw [resume_space hspace, resume_object_comma hkey] at h
    obtain ⟨k, rfl, hk⟩ := key?_eq_some_iff.mp hkey
    exact .objectComma hspace hk (ih result h)
  case noComma =>
    intro value s done key opened t hs hkey result h
    obtain ⟨space, rfl, hspace⟩ := exists_mark hs
    rw [resume_space hspace, resume, skipSpace_cons rfl] at h
    simp only at h
    split at h
    · next heq => cases hkey.symm.trans heq
    · cases h
  case objectClose =>
    intro value s done key opened t hs ih result h
    obtain ⟨space, rfl, hspace⟩ := exists_mark hs
    rw [resume_object_brace hs] at h
    exact .objectBrace hspace (ih result h)
  case noObject =>
    intro value s done key opened hcomma hbrace result h
    rw [resume] at h
    split at h
    · next heq => exact (hcomma _ heq).elim
    · next heq => exact (hbrace _ heq).elim
    · cases h

/-! ## Documents -/

/-- **Documents.** A text is read as a value exactly when it writes the value, with white space before and after it or
without. -/
theorem parse?_eq_some_iff {text : String} {value : Json} :
    parse? text = some value ↔ ∃ before w after, text.toList = before ++ (w ++ after) ∧ IsSpace before ∧
      Writes value w ∧ IsSpace after := by
  constructor
  · intro h
    obtain ⟨before, v, w, after, htext, hbefore, hvalue, hafter, rfl⟩ := reads_written.1 [] _ _ h
    exact ⟨before, w, after, htext, hbefore, hvalue, hafter⟩
  · rintro ⟨before, w, after, htext, hbefore, hvalue, hafter⟩
    have hends : Ends after := by
      rw [← List.append_nil after]
      exact .space hafter fun c hc => by cases hc
    rw [parse?, htext, read_space hbefore, hvalue.read_eq [] hends, resume, if_pos (skipSpace_eq_nil_iff.mpr hafter)]

/-- Whether a text is a document: it writes a value whose strings can be read and whose numbers are finite, and which is
nested less than `nestingLimit` deep. -/
def IsDocument (text : String) (value : Json) : Prop :=
  (∃ before w after, text.toList = before ++ (w ++ after) ∧ IsSpace before ∧ Writes value w ∧ IsSpace after) ∧
    isValue (nestingLimit - 1) value = true

theorem value?_eq_some_iff {text : String} {value : Json} : value? text = some value ↔ IsDocument text value := by
  rw [value?, Option.filter_eq_some_iff, parse?_eq_some_iff, IsDocument]

end Lexeme.Json
