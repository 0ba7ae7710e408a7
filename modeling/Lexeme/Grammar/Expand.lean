import Lexeme.Grammar.Basic
import Lexeme.Grammar.Error

/-!
# Rules as patterns

The pattern of a rule is its body with every reference replaced by the body of the rule that it names. This is possible
when every reference that is met names a rule, and no rule is met inside itself.

On the way down, `path` holds the names of the rules that are being expanded, innermost first. A rule is entered only
if it is not on the path, so the number of rules that are not on the path bounds the depth.

A rule can be used many times. `Expander` keeps the patterns that it has found, so that each rule is expanded only
once.
-/

namespace Lexeme.Grammar

/-- The number of rules that are not on the path. -/
def unvisited (g : Grammar) (path : List String) : Nat :=
  (g.rules.filter (·.name ∉ path)).length

theorem unvisited_cons_lt {g : Grammar} {path : List String} {name : String} {rule : Rule}
    (hrule : g.rule? name = some rule) (hpath : name ∉ path) : g.unvisited (name :: path) < g.unvisited path := by
  have hmem : rule ∈ g.rules := List.mem_of_find?_eq_some hrule
  have hname : rule.name = name := by simpa using List.find?_some hrule
  unfold unvisited
  rw [show (fun r : Rule => decide (r.name ∉ name :: path)) =
    fun r => decide (r.name ≠ name) && decide (r.name ∉ path) by
      funext r; simp [List.mem_cons, not_or]]
  rw [← List.filter_filter]
  refine Nat.lt_of_le_of_ne (List.length_filter_le _ _) fun h => ?_
  have := List.length_filter_eq_length_iff.mp h rule (List.mem_filter.mpr ⟨hmem, by simpa [hname] using hpath⟩)
  simp [hname] at this

/-- A bound for the work that is left where something of a size stands below a path. -/
noncomputable def work (g : Grammar) (path : List String) (size : Nat) : Nat := g.unvisited path * sizeOf g.rules + size

theorem work_rule_lt {g : Grammar} {path : List String} {name : String} {rule : Rule}
    (hrule : g.rule? name = some rule) (hpath : name ∉ path) :
    g.work (name :: path) (sizeOf rule.alternatives) < g.work path 0 := by
  have hsize : sizeOf rule.alternatives < sizeOf g.rules := by
    have hmem := List.sizeOf_lt_of_mem (List.mem_of_find?_eq_some hrule)
    have hfield : sizeOf rule.alternatives < sizeOf rule := by
      cases rule
      simp only [Rule.mk.sizeOf_spec]
      omega
    omega
  have hunvisited := Nat.mul_le_mul_right (sizeOf g.rules) (unvisited_cons_lt hrule hpath)
  rw [Nat.succ_mul] at hunvisited
  unfold work
  omega

/-- The pattern of alternatives whose elements have been expanded. -/
def choiceGroup (alternatives : List (List Pattern)) : Pattern :=
  .group (.choice (alternatives.map .concat))

/-- The error that a name is which is met on the path that leads to it. -/
def recursion (path : List String) (name : String) : Error :=
  .recursiveRule name (" -> ".intercalate (name :: path).reverse)

/-- The error that a name is which no rule has. -/
def undefined (path : List String) (name : String) : Error :=
  .undefinedRule (path.head?.getD "") name

mutual

/-- The pattern of the rule `name`. -/
def expandRule (g : Grammar) (path : List String) (name : String) : Except Error Pattern :=
  if _ : name ∈ path then .error (recursion path name)
  else
    match _ : g.rule? name with
    | none => .error (undefined path name)
    | some rule => do return choiceGroup (← expandAlternatives g (name :: path) rule.alternatives)
termination_by g.work path 0
decreasing_by exact work_rule_lt ‹_› ‹_›

/-- The patterns of the elements of alternatives. -/
def expandAlternatives (g : Grammar) (path : List String) : List (List Element) → Except Error (List (List Pattern))
  | [] => return []
  | elements :: rest => do return (← expandSequence g path elements) :: (← expandAlternatives g path rest)
termination_by alternatives => g.work path (sizeOf alternatives)
decreasing_by all_goals (simp [work]; try omega)

/-- The patterns of elements. -/
def expandSequence (g : Grammar) (path : List String) : List Element → Except Error (List Pattern)
  | [] => return []
  | element :: rest => do return (← expandElement g path element) :: (← expandSequence g path rest)
termination_by elements => g.work path (sizeOf elements)
decreasing_by all_goals (simp [work]; try omega)

/-- The pattern of an element. -/
def expandElement (g : Grammar) (path : List String) : Element → Except Error Pattern
  | .literal text => return .literal text.toList
  | .set negated items => return .set negated items
  | .any => return .any
  | .reference name => expandRule g path name
  | .group alternatives => do return choiceGroup (← expandAlternatives g path alternatives)
  | .repeated quantifier greedy element => do return .repeated quantifier greedy (← expandElement g path element)
termination_by element => g.work path (sizeOf element)
decreasing_by all_goals (simp [work]; try omega)

end

/-! ## Expansion with a memory -/

/-- The patterns that have been found, by the names of their rules. -/
abbrev Found := List (String × Pattern)

/-- Work that uses and extends what has been found. What was found before a failure is kept. -/
abbrev Expander := ExceptT Error (StateM Found)

/-- The pattern of a rule, if it has been found. -/
def found? (name : String) : Expander (Option Pattern) := return (← getThe Found).lookup name

/-- Keeps the pattern of a rule. -/
def keep (name : String) (pattern : Pattern) : Expander Unit := modifyThe Found ((name, pattern) :: ·)

mutual

/-- Finds the pattern of the rule `name`. -/
def findRule (g : Grammar) (path : List String) (name : String) : Expander Pattern := do
  match ← found? name with
  | some pattern => return pattern
  | none =>
    if _ : name ∈ path then throw (recursion path name)
    else
      match _ : g.rule? name with
      | none => throw (undefined path name)
      | some rule =>
        let pattern := choiceGroup (← findAlternatives g (name :: path) rule.alternatives)
        keep name pattern
        return pattern
termination_by g.work path 0
decreasing_by exact work_rule_lt ‹_› ‹_›

/-- Finds the patterns of the elements of alternatives. -/
def findAlternatives (g : Grammar) (path : List String) : List (List Element) → Expander (List (List Pattern))
  | [] => return []
  | elements :: rest => do return (← findSequence g path elements) :: (← findAlternatives g path rest)
termination_by alternatives => g.work path (sizeOf alternatives)
decreasing_by all_goals (simp [work]; try omega)

/-- Finds the patterns of elements. -/
def findSequence (g : Grammar) (path : List String) : List Element → Expander (List Pattern)
  | [] => return []
  | element :: rest => do return (← findElement g path element) :: (← findSequence g path rest)
termination_by elements => g.work path (sizeOf elements)
decreasing_by all_goals (simp [work]; try omega)

/-- Finds the pattern of an element. -/
def findElement (g : Grammar) (path : List String) : Element → Expander Pattern
  | .literal text => return .literal text.toList
  | .set negated items => return .set negated items
  | .any => return .any
  | .reference name => findRule g path name
  | .group alternatives => do return choiceGroup (← findAlternatives g path alternatives)
  | .repeated quantifier greedy element => do return .repeated quantifier greedy (← findElement g path element)
termination_by element => g.work path (sizeOf element)
decreasing_by all_goals (simp [work]; try omega)

end

end Lexeme.Grammar
