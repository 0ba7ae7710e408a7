/-!
# Vocabularies

A vocabulary numbers the categories of tokens. Category zero is the end of input; every other has been defined, in
order from one on, with a literal (the quoted text of an anonymous token), with a symbol (the name of a rule), with
both or with neither.
-/

namespace Lexeme

/-- What a category is called. -/
structure Kind where
  literal? : Option String
  symbol? : Option String
deriving DecidableEq, Repr

/-- The categories from one on. -/
structure Vocabulary where
  kinds : Array Kind
deriving DecidableEq, Repr

namespace Vocabulary

/-- No category but the end of input. -/
def empty : Vocabulary := ⟨#[]⟩

/-- The category of the end of input. -/
def endOfInput : Nat := 0

/-- The highest category. -/
def maxCategory (v : Vocabulary) : Nat := v.kinds.size

/-- Defines the next category. Its number is the new highest one. -/
def define (v : Vocabulary) (kind : Kind) : Vocabulary := ⟨v.kinds.push kind⟩

/-- Defines a category for each kind in turn. -/
def defineAll (v : Vocabulary) (kinds : List Kind) : Vocabulary := kinds.foldl define v

/-- What a category is called, if there is such a category. -/
def kind? (v : Vocabulary) : Nat → Option Kind
  | 0 => some ⟨none, some "EOF"⟩
  | category + 1 => v.kinds[category]?

/-- The symbol of a category. -/
def symbol? (v : Vocabulary) (category : Nat) : Option String :=
  (v.kind? category).bind Kind.symbol?

/-- The literal of a category, between apostrophes. -/
def literalName? (v : Vocabulary) (category : Nat) : Option String :=
  ((v.kind? category).bind Kind.literal?).map fun literal => s!"'{literal}'"

/-- The literal of a category or else its symbol or else its number. -/
def displayName (v : Vocabulary) (category : Nat) : String :=
  ((v.literalName? category).or (v.symbol? category)).getD (toString category)

/-- The least category with a symbol. -/
def categoryOf? (v : Vocabulary) (symbol : String) : Option Nat :=
  (List.range (v.maxCategory + 1)).find? fun category => v.symbol? category = some symbol

theorem toList_defineAll (v : Vocabulary) (kinds : List Kind) :
    (v.defineAll kinds).kinds.toList = v.kinds.toList ++ kinds := by
  unfold defineAll
  induction kinds generalizing v with
  | nil => simp
  | cons kind kinds ih => rw [List.foldl_cons, ih]; simp [define]

/-- The categories of a list of kinds are numbered from one on. -/
theorem kind?_defineAll (kinds : List Kind) (i : Nat) : (empty.defineAll kinds).kind? (i + 1) = kinds[i]? := by
  change (empty.defineAll kinds).kinds[i]? = _
  rw [← Array.getElem?_toList, toList_defineAll]
  rfl

/-- Categories that are called something are not above the highest. -/
theorem le_maxCategory_of_kind? {v : Vocabulary} {category : Nat} {kind : Kind} (h : v.kind? category = some kind) :
    category ≤ v.maxCategory := by
  cases category with
  | zero => exact Nat.zero_le _
  | succ i =>
    obtain ⟨hlt, -⟩ := Array.getElem?_eq_some_iff.mp h
    exact hlt

end Vocabulary

end Lexeme
