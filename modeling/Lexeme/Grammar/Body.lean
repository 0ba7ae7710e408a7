import Lexeme.Grammar.Symbol

/-!
# The bodies of rules

A rule is read from the symbols of a source. Groups can be nested to any depth: what encloses the innermost open group
is kept on a stack of frames.

A reader takes symbols off a list and gives back the rest. A fault is reported at the symbol that the rest begins
with, or at the last symbol of the source if there is no rest. Actions inside a body have no effect on lexing; they
are read over, and a notice of each is kept.
-/

namespace Lexeme.Grammar

/-- A symbol and its position. -/
abbrev Placed := Symbol × Position

/-- A part of a source that has no effect. -/
inductive Notice where
  | embeddedAction (rule : String)
  | namedAction (name : String)
deriving DecidableEq, Repr

/-- A value that is read, and the symbols after it. -/
abbrev Taken (α : Type) := Except Error (α × List Placed)

/-- What is read, and the notices on the way, last first. -/
abbrev Noticed (α : Type) := Taken α × List Notice

/-- Changes a value that is read. -/
def Taken.mapValue {α β : Type} (f : α → β) (r : Taken α) : Taken β := r.map fun (a, rest) => (f a, rest)

theorem Taken.mapValue_eq_ok {α β : Type} {f : α → β} {r : Taken α} {b : β} {rest : List Placed}
    (h : r.mapValue f = .ok (b, rest)) : ∃ a, r = .ok (a, rest) ∧ f a = b := by
  cases r with
  | error => cases h
  | ok r => cases h; exact ⟨r.1, rfl, rfl⟩

/-- The error that a fault is at the beginning of `rest`. The last symbol of the source is at `last`. -/
def faultAt (last : Position) (rest : List Placed) (fault : Fault) : Error :=
  fault.error (rest.head?.elim last Prod.snd)

variable (last : Position)

/-- Takes a name of either kind. -/
def identifier : List Placed → Taken String
  | (.tokenName name, _) :: rest => .ok (name, rest)
  | (.ruleName name, _) :: rest => .ok (name, rest)
  | s => .error (faultAt last s .expectedIdentifier)

/-- Takes the block that belongs to `owner`. -/
def block (owner : String) : List Placed → Taken String
  | (.action body, _) :: rest => .ok (body, rest)
  | s => .error (faultAt last s (.expectedBlock owner))

/-- Takes one symbol, which messages call `what`. -/
def expect (symbol : Symbol) (what : String) : List Placed → Except Error (List Placed)
  | [] => .error (faultAt last [] (.expected what))
  | (found, p) :: rest =>
    if found = symbol then .ok rest else .error (Fault.error p (.expected what))

/-! ## Elements -/

/-- The only character of a text. -/
def onlyChar? (text : String) : Option Char :=
  match text.toList with
  | [c] => some c
  | _ => none

/-- The range between the characters of two literals. -/
def rangeOf? (low high : String) : Option Element :=
  match onlyChar? low, onlyChar? high with
  | some low, some high => if low ≤ high then some (.set false [.range low high]) else none
  | _, _ => none

/-- Takes an element that is not a group, if one begins here. -/
def leaf? : List Placed → Option (Taken Element)
  | (.literal text, p) :: rest =>
    if text.isEmpty then some (.error (Fault.error p .emptyLiteral))
    else
      match rest with
      | (.doubleDot, _) :: (.literal high, _) :: rest =>
        match rangeOf? text high with
        | some e => some (.ok (e, rest))
        | none => some (.error (faultAt last rest .invalidRangeBounds))
      | (.doubleDot, _) :: rest => some (.error (faultAt last rest.tail .expectedRangeEnd))
      | rest => some (.ok (.literal text, rest))
  | (.set items, _) :: rest => some (.ok (.set false items, rest))
  | (.dot, _) :: rest => some (.ok (.any, rest))
  | (.tokenName name, _) :: rest =>
    if name = "EOF" then some (.error (faultAt last rest (.unsupported "EOF in lexer rules")))
    else some (.ok (.reference name, rest))
  | (.ruleName name, p) :: _ =>
    some (.error (Fault.error p (.referenceToParserRule name)))
  | _ => none

mutual

/-- The set whose complement can be taken: a set, one character, or a choice among such. -/
def setItems? : Element → Option (List SetItem)
  | .set false items => some items
  | .literal text => (onlyChar? text).map fun c => [.single c]
  | .group alternatives => choiceItems? alternatives
  | _ => none

def choiceItems? : List (List Element) → Option (List SetItem)
  | [] => some []
  | [e] :: rest => do return (← setItems? e) ++ (← choiceItems? rest)
  | _ => none

end

/-- The element under `count` signs of complement. -/
def complement? : (count : Nat) → Element → Option Element
  | 0, e => some e
  | count + 1, e => do
    return .set true (← setItems? (← complement? count e))

/-- Takes the mark that makes a repeat lazy: whether the repeat is greedy. -/
def greediness : List Placed → Bool × List Placed
  | (.question, _) :: rest => (false, rest)
  | s => (true, s)

/-- Takes the marks of a repeat after an element, if there are any. -/
def quantified (e : Element) : List Placed → Element × List Placed
  | (.question, _) :: rest => (.repeated .optional (greediness rest).1 e, (greediness rest).2)
  | (.star, _) :: rest => (.repeated .zeroOrMore (greediness rest).1 e, (greediness rest).2)
  | (.plus, _) :: rest => (.repeated .oneOrMore (greediness rest).1 e, (greediness rest).2)
  | s => (e, s)

/-- Finishes an element after `tildes` signs of complement. -/
def completed (tildes : Nat) (e : Element) (rest : List Placed) : Taken Element :=
  match complement? tildes e with
  | some e => .ok (quantified e rest)
  | none => .error (faultAt last rest .invalidComplement)

/-! ## Sequences -/

/-- What encloses an open group: the elements before it in its sequence, last first, the signs of complement before
it, and its finished alternatives, last first. -/
structure Frame where
  before : List Element
  tildes : Nat
  finished : List (List Element)
deriving Repr

namespace Frame

/-- Where a group is opened after the elements `before`. -/
def enter (before : List Element) (tildes : Nat) : Frame := ⟨before, tildes, []⟩

/-- After one more alternative, with elements given last first. -/
def extend (frame : Frame) (elements : List Element) : Frame :=
  { frame with finished := elements.reverse :: frame.finished }

/-- The group of the finished alternatives. -/
def group (frame : Frame) : Element := .group frame.finished.reverse

end Frame

/-- Whether a question mark comes next. -/
def isQuestioned : List Placed → Bool
  | (.question, _) :: _ => true
  | _ => false

theorem greediness_length_le (s : List Placed) : (greediness s).2.length ≤ s.length := by
  fun_cases greediness s <;> simp

theorem quantified_length_le (e : Element) (s : List Placed) : (quantified e s).2.length ≤ s.length := by
  fun_cases quantified e s <;> simp
  all_goals exact Nat.le_succ_of_le (greediness_length_le _)

theorem completed_length_le {tildes : Nat} {e found : Element} {s rest : List Placed}
    (h : completed last tildes e s = .ok (found, rest)) : rest.length ≤ s.length := by
  unfold completed at h
  split at h
  · next e _ =>
    rw [show rest = (quantified e s).2 from (congrArg Prod.snd (Except.ok.inj h)).symm]
    exact quantified_length_le e s
  · cases h

theorem leaf?_length {s rest : List Placed} {e : Element} (h : leaf? last s = some (.ok (e, rest))) :
    rest.length < s.length := by
  unfold leaf? at h
  split at h
  · split at h
    · cases h
    · split at h
      · split at h
        · cases h
          simp only [List.length_cons]
          omega
        · cases h
      · cases h
      · cases h
        simp
  · cases h; simp
  · cases h; simp
  · split at h
    · cases h
    · cases h; simp
  · cases h
  · cases h

/-- Takes a sequence of elements, up to a symbol that ends the alternative of a rule. `current` holds the elements
before in the innermost open group, last first. -/
def sequence (rule : String) (frames : List Frame) (tildes : Nat) (current : List Element) (notices : List Notice)
    (s : List Placed) : Noticed (List Element) :=
  match s with
  | (.tilde, _) :: rest => sequence rule frames (tildes + 1) current notices rest
  | (.leftParen, _) :: rest => sequence rule (.enter current tildes :: frames) 0 [] notices rest
  | (.action _, p) :: rest =>
    if tildes ≠ 0 then (.error (Fault.error p .expectedElement), notices)
    else if isQuestioned rest then (.error (faultAt last rest (.unsupported "semantic predicates")), notices)
    else sequence rule frames 0 current (.embeddedAction rule :: notices) rest
  | s =>
    match _ : leaf? last s with
    | some (.ok (e, rest)) =>
      match _ : completed last tildes e rest with
      | .ok (e, rest) => sequence rule frames 0 (e :: current) notices rest
      | .error e => (.error e, notices)
    | some (.error e) => (.error e, notices)
    | none =>
      if tildes ≠ 0 then (.error (faultAt last s .expectedElement), notices)
      else
        match frames, s with
        | [], s => (.ok (current.reverse, s), notices)
        | frame :: frames, (.bar, _) :: rest =>
          sequence rule (frame.extend current :: frames) 0 [] notices rest
        | frame :: frames, (.rightParen, _) :: rest =>
          match _ : completed last frame.tildes (frame.extend current).group rest with
          | .ok (e, rest) => sequence rule frames 0 (e :: frame.before) notices rest
          | .error e => (.error e, notices)
        | _ :: _, (.arrow, p) :: _ => (.error (Fault.error p .innerCommand), notices)
        | _ :: _, s => (.error (faultAt last s (.expected "')'")), notices)
termination_by s.length
decreasing_by
  all_goals
    grind [→ leaf?_length, → completed_length_le]

end Lexeme.Grammar
