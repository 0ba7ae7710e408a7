import Lexeme.Grammar.Basic
import Lexeme.Proofs.Pattern.Rests

/-!
# What the body of a rule means

The meaning of an element without references is told from the element itself: which texts it describes
(`Element.Describes`), and what it leaves of a text when its alternatives and repeats are tried in their order
(`Element.rests`). The second finds exactly the texts of the first (`finds_choiceRests`).

An element with references means what it means once they have been replaced (`Inlined`): in place of each stands the
body of the rule that it names, as a group. There is at most one way to replace all of them (`InlinedChoice.unique`).
-/

namespace Lexeme

/-! ## Elements without references -/

mutual

/-- Whether an element describes a text. A reference describes nothing: it has to be replaced. -/
def Element.Describes : Element → List Char → Prop
  | .literal text => (· = text.toList)
  | .set negated items => fun text => ∃ c, text = [c] ∧ (inItems items c != negated) = true
  | .any => fun text => ∃ c, text = [c]
  | .reference _ => fun _ => False
  | .group alternatives => ChoiceDescribes alternatives
  | .repeated quantifier _ e => Copies quantifier e.Describes

/-- Whether a text consists of texts that elements describe. -/
def SequenceDescribes : List Element → List Char → Prop
  | [] => (· = [])
  | e :: rest => fun text => ∃ u v, text = u ++ v ∧ e.Describes u ∧ SequenceDescribes rest v

/-- Whether one of several alternatives describes a text. -/
def ChoiceDescribes : List (List Element) → List Char → Prop
  | [] => fun _ => False
  | es :: rest => fun text => SequenceDescribes es text ∨ ChoiceDescribes rest text

end

mutual

/-- What is left of a text after each match of an element. -/
def Element.rests : Element → Matching
  | .literal text => textRests text.toList
  | .set negated items => oneRests fun c => inItems items c != negated
  | .any => oneRests fun _ => true
  | .reference _ => fun _ => []
  | .group alternatives => choiceRests alternatives
  | .repeated quantifier greedy e => repeatRests quantifier greedy e.rests

/-- Matches elements one after the other. -/
def sequenceRests : List Element → Matching
  | [] => fun s => [s]
  | e :: rest => fun s => (e.rests s).flatMap (sequenceRests rest)

/-- Tries alternatives in turn. -/
def choiceRests : List (List Element) → Matching
  | [] => fun _ => []
  | es :: rest => fun s => sequenceRests es s ++ choiceRests rest s

end

mutual

/-- Matching an element finds the texts that it describes. -/
theorem Element.finds_rests : ∀ e : Element, Finds e.rests e.Describes
  | .literal text => finds_textRests text.toList
  | .set negated items => finds_oneRests _
  | .any => finds_iff (finds_oneRests _) fun text => by simp [Element.Describes]
  | .reference _ => finds_empty
  | .group alternatives => finds_choiceRests alternatives
  | .repeated quantifier greedy e => finds_repeatRests e.finds_rests quantifier greedy

theorem finds_sequenceRests : ∀ es : List Element, Finds (sequenceRests es) (SequenceDescribes es)
  | [] => finds_nil
  | e :: rest => e.finds_rests.flatMap (finds_sequenceRests rest)

/-- Trying alternatives finds the texts that one of them describes. -/
theorem finds_choiceRests : ∀ alternatives : List (List Element),
    Finds (choiceRests alternatives) (ChoiceDescribes alternatives)
  | [] => finds_empty
  | es :: rest => (finds_sequenceRests es).append (finds_choiceRests rest)

end

/-! ## References -/

mutual

/-- Whether an element becomes another one when all references in it are replaced by the bodies of rules. -/
inductive Inlined (g : Grammar) : Element → Element → Prop
  | literal (text : String) : Inlined g (.literal text) (.literal text)
  | set (negated : Bool) (items : List SetItem) : Inlined g (.set negated items) (.set negated items)
  | any : Inlined g .any .any
  | reference {name : String} {rule : Rule} {body : List (List Element)} (hrule : g.rule? name = some rule)
      (h : InlinedChoice g rule.alternatives body) : Inlined g (.reference name) (.group body)
  | group {alternatives body : List (List Element)} (h : InlinedChoice g alternatives body) :
      Inlined g (.group alternatives) (.group body)
  | repeated (quantifier : Quantifier) (greedy : Bool) {e body : Element} (h : Inlined g e body) :
      Inlined g (.repeated quantifier greedy e) (.repeated quantifier greedy body)

inductive InlinedSequence (g : Grammar) : List Element → List Element → Prop
  | nil : InlinedSequence g [] []
  | cons {e body : Element} {es bodies : List Element} (he : Inlined g e body) (hes : InlinedSequence g es bodies) :
      InlinedSequence g (e :: es) (body :: bodies)

inductive InlinedChoice (g : Grammar) : List (List Element) → List (List Element) → Prop
  | nil : InlinedChoice g [] []
  | cons {es body : List Element} {rest bodies : List (List Element)} (hes : InlinedSequence g es body)
      (hrest : InlinedChoice g rest bodies) : InlinedChoice g (es :: rest) (body :: bodies)

end

variable {g : Grammar}

mutual

theorem Inlined.unique : ∀ {e body other : Element}, Inlined g e body → Inlined g e other → body = other
  | _, _, _, .literal _, .literal _ => rfl
  | _, _, _, .set _ _, .set _ _ => rfl
  | _, _, _, .any, .any => rfl
  | _, _, _, .reference hrule h, .reference hrule' h' => by
    obtain rfl := Option.some.inj (hrule.symm.trans hrule')
    rw [h.unique h']
  | _, _, _, .group h, .group h' => by rw [h.unique h']
  | _, _, _, .repeated _ _ h, .repeated _ _ h' => by rw [h.unique h']

theorem InlinedSequence.unique : ∀ {es body other : List Element},
    InlinedSequence g es body → InlinedSequence g es other → body = other
  | _, _, _, .nil, .nil => rfl
  | _, _, _, .cons he hes, .cons he' hes' => by rw [he.unique he', hes.unique hes']

/-- References can be replaced in one way only. -/
theorem InlinedChoice.unique : ∀ {alternatives body other : List (List Element)},
    InlinedChoice g alternatives body → InlinedChoice g alternatives other → body = other
  | _, _, _, .nil, .nil => rfl
  | _, _, _, .cons hes hrest, .cons hes' hrest' => by rw [hes.unique hes', hrest.unique hrest']

end

end Lexeme
