import Lexeme.Proofs.Pattern.Reading

/-!
# What symbols hold

The symbols of a source satisfy more than their types say (`Symbol.WellFormed`): the name of a token begins with an
uppercase letter and consists of the characters of names, and a set has members and its ranges are in order. Every
reader of symbols relies on this.
-/

namespace Lexeme.Grammar

/-- Whether a name consists of the characters of names. -/
def IsName (name : String) : Prop := ∀ c ∈ name.toList, isNameChar c = true

/-- Whether a name can be that of a token. -/
def IsTokenName (name : String) : Prop := IsName name ∧ ∃ c, name.toList.head? = some c ∧ Text.isUppercase c = true

/-- Whether a symbol is of the kind that sources are read as. -/
def Symbol.WellFormed : Symbol → Prop
  | tokenName name => IsTokenName name
  | ruleName name => IsName name
  | set items => ValidItems items
  | _ => True

/-! ## Sets -/

/-- The characters of a set are combined into items with ranges in order. -/
theorem ordered_of_setItems (chars : List (Char × Bool)) : ∀ {done items : List SetItem},
    setItems done chars = .ok items → (∀ item ∈ done, item.Ordered) → ValidItems items := by
  intro done items h hdone
  fun_induction setItems done chars with
  | case1 => cases h
  | case2 done low lowEscaped high highEscaped rest hle ih =>
    exact ih h (List.forall_mem_cons.mpr ⟨Char.not_lt.mp hle, hdone⟩)
  | case3 done c escaped rest _ ih => exact ih h (List.forall_mem_cons.mpr ⟨trivial, hdone⟩)
  | case4 => cases h
  | case5 done hempty =>
    cases h
    exact ⟨by simpa using hempty, fun item hitem => hdone item (List.mem_reverse.mp hitem)⟩

theorem validItems_of_set {s rest : Located} {items : List SetItem} (h : set s = .ok (items, rest)) :
    ValidItems items := by
  unfold set at h
  split at h
  · split at h
    · next hitems =>
      cases h
      exact ordered_of_setItems _ hitems fun item hitem => by cases hitem
    · cases h
  · cases h

/-! ## Words and marks -/

/-- A word is the name of a token or of a parser rule. -/
theorem wellFormed_wordSymbol {c : Char} {word : List Char} (hc : isNameChar c = true)
    (hword : ∀ d ∈ word, isNameChar d = true) : (wordSymbol c (c :: word)).WellFormed := by
  have hname : IsName (String.ofList (c :: word)) := by
    intro d hd
    rw [String.toList_ofList] at hd
    rcases List.mem_cons.mp hd with rfl | hd
    · exact hc
    · exact hword d hd
  unfold wordSymbol
  split
  · next hupper => exact ⟨hname, c, by simp, hupper⟩
  · exact hname

theorem mem_spanOf {p : Char → Bool} {s : Located} {c : Char} (h : c ∈ (spanOf p s).1) : p c = true := by
  obtain ⟨d, hd, rfl⟩ := List.mem_map.mp h
  exact List.all_eq_true.mp List.all_takeWhile d hd

theorem wellFormed_of_mark {c : Char} {after : Option Char} {found : Symbol} {both : Bool}
    (h : mark? c after = some (found, both)) : found.WellFormed := by
  unfold mark? at h
  split at h
  all_goals cases h
  all_goals trivial

/-- A symbol that is read is well formed. -/
theorem wellFormed_of_symbol {c : Char} {p : Position} {s rest : Located} {found : Symbol}
    (h : symbol c p s = .ok (found, rest)) : found.WellFormed := by
  have hmap {α : Type} {r : Read α} {f : α → Symbol} (h : r.map (fun r => (f r.1, r.2)) = .ok (found, rest)) :
      ∃ a t, r = .ok (a, t) ∧ f a = found := by
    cases r with
    | error => cases h
    | ok r =>
      cases h
      exact ⟨r.1, r.2, rfl, rfl⟩
  unfold symbol at h
  split at h
  · obtain ⟨text, -, -, rfl⟩ := hmap h
    trivial
  · split at h
    · obtain ⟨items, t, hset, rfl⟩ := hmap h
      exact validItems_of_set hset
    · split at h
      · obtain ⟨body, -, -, rfl⟩ := hmap h
        trivial
      · split at h
        · split at h
          · cases h
            trivial
          · cases h
        · split at h
          · next hc =>
            cases h
            refine wellFormed_wordSymbol ?_ fun d hd => mem_spanOf hd
            unfold isNameChar
            rcases Bool.or_eq_true_iff.mp hc with hc | hc
            · simp [hc]
            · simp [of_decide_eq_true hc]
          · split at h
            · next hmark =>
              cases h
              exact wellFormed_of_mark hmark
            · cases h

theorem wellFormed_of_symbolsFrom {done found : List (Symbol × Position)} {s : Located}
    (h : symbolsFrom done s = .ok found) (hdone : ∀ x ∈ done, x.1.WellFormed) : ∀ x ∈ found, x.1.WellFormed := by
  fun_induction symbolsFrom done s with
  | case1 => cases h
  | case2 done s hs =>
    cases h
    exact fun x hx => hdone x (List.mem_reverse.mp hx)
  | case3 done s c p rest hs symbol after hsymbol ih =>
    exact ih h (List.forall_mem_cons.mpr ⟨wellFormed_of_symbol hsymbol, hdone⟩)
  | case4 => cases h

/-- All symbols of a source are well formed. -/
theorem wellFormed_of_symbols {source : String} {found : List (Symbol × Position)} (h : symbols source = .ok found) :
    ∀ x ∈ found, x.1.WellFormed := by
  unfold symbols at h
  dsimp only at h
  split at h
  · next hfound =>
    cases h
    exact wellFormed_of_symbolsFrom hfound fun x hx => by cases hx
  · cases h
  · cases h

end Lexeme.Grammar
