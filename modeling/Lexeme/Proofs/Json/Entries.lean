import Mathlib.Data.String.Basic
import Lexeme.Json.Value

/-!
# The fields that count

Of the fields of an object with one key the last one counts (`LastValue`). The entries of an object are the fields that
count (`mem_entries_iff`), in strictly ascending order of their keys (`ascending_entries`). Sorting does not change which
pair with a key is the last one, as it leaves the pairs with that key in their order (`filter_mergeSort`).
-/

namespace Lexeme.Json

/-! ## The last pair with a key -/

variable {α : Type}

/-- The order of keys. -/
def keyLE (a b : String × α) : Bool := a.1 ≤ b.1

/-- Whether of the pairs with its key a pair is the last one. -/
def IsLast (pairs : List (String × α)) (pair : String × α) : Prop :=
  ∃ before after, pairs = before ++ pair :: after ∧ ∀ other ∈ after, other.1 ≠ pair.1

theorem isLast_iff {pairs : List (String × α)} {pair : String × α} :
    IsLast pairs pair ↔ (pairs.filter (·.1 = pair.1)).getLast? = some pair := by
  rw [← List.head?_reverse, ← List.filter_reverse, List.head?_filter, List.find?_eq_some_iff_append]
  constructor
  · rintro ⟨before, after, rfl, hafter⟩
    exact ⟨by simp, after.reverse, before.reverse, by simp, by simpa using hafter⟩
  · rintro ⟨-, after, before, heq, hafter⟩
    have hpairs : pairs = before.reverse ++ pair :: after.reverse := by
      rw [← List.reverse_reverse pairs, heq]
      simp
    exact ⟨before.reverse, after.reverse, hpairs, by simpa using hafter⟩

theorem not_isLast_nil (pair : String × α) : ¬IsLast [] pair := by
  rintro ⟨before, after, heq, -⟩
  simp at heq

theorem isLast_cons_iff {pairs : List (String × α)} {first pair : String × α} :
    IsLast (first :: pairs) pair ↔ IsLast pairs pair ∨ pair = first ∧ ∀ other ∈ pairs, other.1 ≠ first.1 := by
  constructor
  · rintro ⟨before, after, heq, hafter⟩
    cases before with
    | nil =>
      cases heq
      exact .inr ⟨rfl, hafter⟩
    | cons _ before =>
      cases heq
      exact .inl ⟨before, after, rfl, hafter⟩
  · rintro (⟨before, after, rfl, hafter⟩ | ⟨rfl, hafter⟩)
    · exact ⟨first :: before, after, rfl, hafter⟩
    · exact ⟨[], pairs, rfl, hafter⟩

/-! ## Sorting -/

theorem keyLE_trans (a b c : String × α) : keyLE a b = true → keyLE b c = true → keyLE a c = true := by
  simpa only [keyLE, decide_eq_true_eq] using le_trans

theorem keyLE_total (a b : String × α) : (keyLE a b || keyLE b a) = true := by
  simpa only [keyLE, Bool.or_eq_true, decide_eq_true_eq] using le_total a.1 b.1

theorem pairwise_mergeSort (pairs : List (String × α)) : (pairs.mergeSort keyLE).Pairwise fun a b => a.1 ≤ b.1 := by
  simpa only [keyLE, decide_eq_true_eq] using List.pairwise_mergeSort keyLE_trans keyLE_total pairs

/-- Sorting leaves the pairs with one key in their order. -/
theorem filter_mergeSort (pairs : List (String × α)) (key : String) :
    (pairs.mergeSort keyLE).filter (·.1 = key) = pairs.filter (·.1 = key) := by
  have hkeys : (pairs.filter (·.1 = key)).Pairwise fun a b => keyLE a b = true :=
    List.pairwise_filter.mpr <| List.pairwise_of_forall fun a b ha hb => by
      simp only [decide_eq_true_eq] at ha hb
      simp [keyLE, ha, hb]
  have hsub := (List.sublist_mergeSort keyLE_trans keyLE_total hkeys List.filter_sublist).filter (·.1 = key)
  simp only [List.filter_filter, Bool.and_self] at hsub
  exact (hsub.eq_of_length ((List.mergeSort_perm pairs keyLE).filter _).length_eq.symm).symm

theorem isLast_mergeSort_iff {pairs : List (String × α)} {pair : String × α} :
    IsLast (pairs.mergeSort keyLE) pair ↔ IsLast pairs pair := by
  rw [isLast_iff, isLast_iff, filter_mergeSort]

/-! ## Keeping the last -/

/-- In order, a key that is not the one of its neighbour is less than all further ones. -/
theorem lt_of_first {pairs : List (String × α)} {a b : String × α} (h : (a :: b :: pairs).Pairwise fun a b => a.1 ≤ b.1)
    (hne : a.1 ≠ b.1) : ∀ other ∈ b :: pairs, a.1 < other.1 := by
  obtain ⟨ha, hrest⟩ := List.pairwise_cons.mp h
  have hlt : a.1 < b.1 := lt_of_le_of_ne (ha b List.mem_cons_self) hne
  intro other hother
  obtain rfl | hother := List.mem_cons.mp hother
  · exact hlt
  · exact lt_of_lt_of_le hlt ((List.pairwise_cons.mp hrest).1 other hother)

/-- Of neighbours in order just those are kept that are the last with their keys. -/
theorem mem_lastOfEach_iff {pairs : List (String × α)} (h : pairs.Pairwise fun a b => a.1 ≤ b.1) {pair : String × α} :
    pair ∈ lastOfEach pairs ↔ IsLast pairs pair := by
  fun_induction lastOfEach pairs with
  | case1 a b rest heq ih =>
    rw [ih h.of_cons, @isLast_cons_iff _ _ a]
    exact ⟨.inl, fun h => h.resolve_right fun h => h.2 b List.mem_cons_self heq.symm⟩
  | case2 a b rest hne ih =>
    have hgreater : ∀ other ∈ b :: rest, other.1 ≠ a.1 := fun other hother =>
      ne_of_gt (lt_of_first h hne other hother)
    rw [@isLast_cons_iff _ _ a, List.mem_cons, ih h.of_cons, or_comm, and_iff_left hgreater]
  | case3 short hshort =>
    match short, hshort with
    | [], _ => simp [not_isLast_nil]
    | [a], _ => simp [isLast_cons_iff, not_isLast_nil]
    | a :: b :: rest, hshort => exact (hshort a b rest rfl).elim

theorem lastOfEach_sublist (pairs : List (String × α)) : (lastOfEach pairs).Sublist pairs := by
  fun_induction lastOfEach pairs with
  | case1 a b rest _ ih => exact ih.cons a
  | case2 a b rest _ ih => exact ih.cons_cons a
  | case3 => exact List.Sublist.refl _

/-- What is kept is in strictly ascending order. -/
theorem ascending_lastOfEach {pairs : List (String × α)} (h : pairs.Pairwise fun a b => a.1 ≤ b.1) :
    (lastOfEach pairs).Pairwise fun a b => a.1 < b.1 := by
  fun_induction lastOfEach pairs with
  | case1 a b rest _ ih => exact ih h.of_cons
  | case2 a b rest hne ih =>
    exact List.pairwise_cons.mpr
      ⟨fun other hother => lt_of_first h hne other ((lastOfEach_sublist _).subset hother), ih h.of_cons⟩
  | case3 short hshort =>
    match short, hshort with
    | [], _ => exact List.Pairwise.nil
    | [a], _ => exact List.pairwise_singleton _ a
    | a :: b :: rest, hshort => exact (hshort a b rest rfl).elim

/-- Where no key stands twice all fields count. -/
theorem lastOfEach_eq_self {fields : List (String × α)} (h : (fields.map Prod.fst).Nodup) :
    lastOfEach fields = fields := by
  fun_induction lastOfEach fields with
  | case1 a b rest heq => simp [heq] at h
  | case2 a b rest _ ih => rw [ih (List.nodup_cons.mp h).2]
  | case3 => rfl

/-! ## Entries -/

/-- Whether a value is the last one that the fields of an object have for a key. -/
def LastValue (fields : List (List Char × Json)) (key : String) (value : Json) : Prop :=
  ∃ before body after, fields = before ++ (body, value) :: after ∧ text? body = some key ∧
    ∀ field ∈ after, text? field.1 ≠ some key

theorem lastValue_iff {fields : List (List Char × Json)} {key : String} {value : Json} :
    LastValue fields key value ↔
      IsLast (fields.filterMap fun (key, item) => (text? key).map (·, item)) (key, value) := by
  constructor
  · rintro ⟨before, body, after, rfl, hkey, hafter⟩
    rw [List.filterMap_append, List.filterMap_cons]
    simp only [hkey, Option.map_some]
    refine ⟨_, _, rfl, ?_⟩
    rintro ⟨other, item⟩ hother
    obtain ⟨⟨body, item⟩, hfield, hread⟩ := List.mem_filterMap.mp hother
    obtain ⟨text, htext, heq⟩ := Option.map_eq_some_iff.mp hread
    cases heq
    rintro rfl
    exact hafter _ hfield htext
  · rintro ⟨before, after, heq, hafter⟩
    obtain ⟨first, rest, rfl, -, hrest⟩ := List.filterMap_eq_append_iff.mp heq
    obtain ⟨skipped, ⟨body, item⟩, last, rfl, -, hread, hlast⟩ := List.filterMap_eq_cons_iff.mp hrest
    obtain ⟨text, htext, heq⟩ := Option.map_eq_some_iff.mp hread
    cases heq
    refine ⟨first ++ skipped, body, last, by simp, htext, fun field hfield hsame => ?_⟩
    exact hafter (key, field.2) (hlast ▸ List.mem_filterMap.mpr ⟨field, hfield, by simp [hsame]⟩) rfl

/-- The entries of an object are the last values of its keys. -/
theorem mem_entries_iff {fields : List (List Char × Json)} {key : String} {value : Json} :
    (key, value) ∈ entries fields ↔ LastValue fields key value := by
  rw [lastValue_iff, ← isLast_mergeSort_iff, ← mem_lastOfEach_iff (pairwise_mergeSort _)]
  rfl

/-- The entries of an object are in strictly ascending order of their keys. -/
theorem ascending_entries (fields : List (List Char × Json)) : (entries fields).Pairwise fun a b => a.1 < b.1 :=
  ascending_lastOfEach (pairwise_mergeSort _)

end Lexeme.Json
