/-!
# Patterns

A pattern is a regular expression over characters, of the kind that the rules of a grammar come down to: literal
texts, sets of characters, sequences, alternatives in parentheses, and greedy or lazy repeats. `Pattern.text` writes
it in the usual notation, every character as the escape of its code point, so that none needs quoting.
-/

namespace Lexeme

/-- A member of a set of characters: one character, or all from one to another. -/
inductive SetItem where
  | single (c : Char)
  | range (low high : Char)
deriving DecidableEq, Repr

/-- How often the body of a repeat may occur. -/
inductive Quantifier where
  | optional
  | zeroOrMore
  | oneOrMore
deriving DecidableEq, Repr

inductive Pattern where
  | literal (text : List Char)
  | set (negated : Bool) (items : List SetItem)
  | any
  | seq (first second : Pattern)
  | alt (first second : Pattern)
  | group (body : Pattern)
  | repeated (quantifier : Quantifier) (greedy : Bool) (body : Pattern)
deriving DecidableEq, Repr

namespace SetItem

def holds (c : Char) : SetItem → Bool
  | single d => c = d
  | range low high => low ≤ c && c ≤ high

end SetItem

/-- Whether a character belongs to a set. -/
def inItems (items : List SetItem) (c : Char) : Bool := items.any (·.holds c)

/-- The last character before the surrogates. -/
def beforeSurrogates : Char := '\ud7ff'

/-- The first character after the surrogates. -/
def afterSurrogates : Char := '\ue000'

/-- Whether a set has both characters beside the surrogates, but not in one range. -/
def isSplitAtSurrogates (items : List SetItem) : Bool :=
  inItems items beforeSurrogates && inItems items afterSurrogates &&
    !items.any fun item => item.holds beforeSurrogates && item.holds afterSurrogates

/-- Whether a character belongs to the complement of a set, which consists of the gaps between the ranges of the set. A
gap reaches from the character after the one range to the character before the next. When the ranges have nothing but
the surrogates between them, these two characters are the ends of the ranges, crosswise, and they make up the gap. -/
def inComplement (items : List SetItem) (c : Char) : Bool :=
  !inItems items c || ((c = beforeSurrogates || c = afterSurrogates) && isSplitAtSurrogates items)

/-- Whether a character belongs to a set, or to its complement. -/
def inSet (negated : Bool) (items : List SetItem) (c : Char) : Bool :=
  if negated then inComplement items c else inItems items c

namespace Pattern

/-! ## Text -/

/-- The escape of a character: its code point to base sixteen, in upper case, in braces. -/
def escape (c : Char) : String :=
  "\\x\x7b" ++ String.ofList ((Nat.toDigits 16 c.toNat).map Char.toUpper) ++ "\x7d"

def itemText : SetItem → String
  | .single c => escape c
  | .range low high => escape low ++ "-" ++ escape high

def quantifierText : Quantifier → String
  | .optional => "?"
  | .zeroOrMore => "*"
  | .oneOrMore => "+"

/-- The pattern in the notation of regular expressions. -/
def text : Pattern → String
  | literal chars => String.join (chars.map escape)
  | set negated items => (if negated then "[^" else "[") ++ String.join (items.map itemText) ++ "]"
  | any => "(?s:.)"
  | seq p q => p.text ++ q.text
  | alt p q => p.text ++ "|" ++ q.text
  | group p => "(?:" ++ p.text ++ ")"
  | repeated quantifier greedy p =>
    "(?:" ++ p.text ++ ")" ++ quantifierText quantifier ++ if greedy then "" else "?"

/-! ## Shape -/

/-- The sequence of patterns. -/
def concat : List Pattern → Pattern
  | [] => literal []
  | [p] => p
  | p :: ps => seq p (concat ps)

/-- The choice among patterns, of which there has to be one at least. -/
def choice : List Pattern → Pattern
  | [] => literal []
  | [p] => p
  | p :: ps => alt p (choice ps)

/-- Whether some repeat takes as few occurrences as it can. -/
def isLazy : Pattern → Bool
  | literal _ | set _ _ | any => false
  | seq p q | alt p q => p.isLazy || q.isLazy
  | group p => p.isLazy
  | repeated _ greedy p => !greedy || p.isLazy

/-- Whether the empty text matches. -/
def isNullable : Pattern → Bool
  | literal chars => chars.isEmpty
  | set _ _ | any => false
  | seq p q => p.isNullable && q.isNullable
  | alt p q => p.isNullable || q.isNullable
  | group p => p.isNullable
  | repeated .oneOrMore _ p => p.isNullable
  | repeated _ _ _ => true

/-! ## Nesting

A matcher refuses a pattern that is nested too deep. Each of these is one level in the text of the pattern:
parentheses, a repeat, a set in brackets, the list of its items if it has several, a choice among several
alternatives, and a sequence of several items.
-/

/-- The number of items that the text of a sequence consists of. -/
def itemCount : Pattern → Nat
  | literal chars => chars.length
  | seq p q => p.itemCount + q.itemCount
  | _ => 1

def isChoice : Pattern → Bool
  | alt _ _ => true
  | _ => false

/-- The levels of a pattern inside parentheses, when its parts have `inner` levels at most. -/
def enclosed (p : Pattern) (inner : Nat) : Nat :=
  if p.isChoice || 1 < p.itemCount then inner + 1 else inner

/-- The levels of the parts of a pattern. -/
def partLevels : Pattern → Nat
  | literal _ => 0
  | set _ items => if 1 < items.length then 2 else 1
  | any => 1
  | seq p q => max p.partLevels q.partLevels
  | alt p q => max (branch p p.partLevels) (branch q q.partLevels)
  | group p => enclosed p p.partLevels + 1
  | repeated _ _ p => enclosed p p.partLevels + 2
where
  /-- An alternative of a longer choice is no choice of its own. -/
  branch (p : Pattern) (inner : Nat) : Nat := if p.isChoice then inner else enclosed p inner

/-- A matcher accepts this many levels, of which the sequence of the anchor and the pattern is one. -/
def nestingLimit : Nat := 250

def isTooDeep (p : Pattern) : Bool := nestingLimit < p.partLevels + 1

end Pattern

end Lexeme
