import Mathlib.Tactic.SplitIfs
import Lexeme.Proofs.Grammar.Printed

/-!
# What is read does not depend on positions

Positions are carried along: from a character to the symbol that begins with it, and from a symbol to an error and to the
line of a rule. No reader decides anything by them. So every reader of texts and of symbols gives the same when all
positions are forgotten, up to the positions in what it gives.
-/

namespace Lexeme

namespace Grammar

/-- A text or a list of symbols whose positions are forgotten. -/
def unplaced {α : Type} (s : List (α × Position)) : List (α × Position) := s.map fun x => (x.1, .start)

section

variable {α : Type}

@[simp] theorem unplaced_nil : unplaced ([] : List (α × Position)) = [] := rfl

@[simp] theorem unplaced_cons (a : α) (p : Position) (s : List (α × Position)) :
    unplaced ((a, p) :: s) = (a, .start) :: unplaced s := rfl

@[simp] theorem map_fst_unplaced (s : List (α × Position)) : (unplaced s).map Prod.fst = s.map Prod.fst := by
  simp [unplaced]

theorem unplaced_congr {s t : List (α × Position)} (h : s.map Prod.fst = t.map Prod.fst) : unplaced s = unplaced t := by
  have hmap (s : List (α × Position)) : unplaced s = (s.map Prod.fst).map fun a => (a, .start) := by simp [unplaced]
  rw [hmap, hmap, h]

/-- What begins a list whose positions are forgotten begins the list. -/
theorem exists_cons_of_unplaced {s t : List (α × Position)} {a : α} {q : Position} (h : unplaced s = (a, q) :: t) :
    ∃ p u, s = (a, p) :: u := by
  obtain ⟨⟨a, p⟩, u, rfl, heq, -⟩ := List.map_eq_cons_iff.mp h
  obtain ⟨rfl, -⟩ := Prod.mk.inj heq
  exact ⟨p, u, rfl⟩

theorem unplaced_dropWhile (p : α → Bool) (s : List (α × Position)) :
    (unplaced s).dropWhile (fun x => p x.1) = unplaced (s.dropWhile fun x => p x.1) := List.dropWhile_map ..

end

/-! ## Symbols from texts -/

/-- A fault whose position is forgotten. -/
def Stop.unplaced (e : Stop) : Stop := ⟨e.fault, Grammar.unplaced e.rest⟩

/-- What is read, with the positions of the rest forgotten. -/
def Read.unplaced {α : Type} : Read α → Read α
  | .ok (a, rest) => .ok (a, Grammar.unplaced rest)
  | .error e => .error e.unplaced

section

variable {α : Type}

@[simp] theorem Read.unplaced_ok (a : α) (rest : Located) :
    Read.unplaced (.ok (a, rest)) = .ok (a, Grammar.unplaced rest) := rfl

@[simp] theorem Read.unplaced_error (e : Stop) :
    Read.unplaced (.error e : Read α) = .error e.unplaced := rfl

@[simp] theorem Read.unplaced_stop (fault : Fault) (rest : Located) :
    Read.unplaced (stop fault rest : Read α) = stop fault (Grammar.unplaced rest) := rfl

theorem Read.unplaced_map {β : Type} (f : α → β) (r : Read α) :
    Read.unplaced (r.map fun x => (f x.1, x.2)) = (Read.unplaced r).map fun x => (f x.1, x.2) := by
  cases r <;> rfl

end

theorem skipComment?_unplaced (s : Located) : skipComment? (unplaced s) = (skipComment? s).map unplaced := by
  fun_induction skipComment? s with
  | case1 => rfl
  | case2 x s hs ih =>
    rw [← ih]
    refine skipComment?.eq_2 _ _ fun p q rest hstar hrest => ?_
    obtain ⟨c, p'⟩ := x
    obtain ⟨rfl, -⟩ := Prod.mk.inj hstar
    obtain ⟨q', t, rfl⟩ := exists_cons_of_unplaced hrest
    exact hs p' q' t rfl rfl
  | case3 => rfl

theorem spanOf_unplaced (p : Char → Bool) (s : Located) :
    spanOf p (unplaced s) = ((spanOf p s).1, unplaced (spanOf p s).2) := by
  unfold spanOf
  rw [unplaced_dropWhile, unplaced, List.takeWhile_map, List.map_map]
  rfl

theorem bracedDigits_unplaced (done : List Char) (s : Located) :
    bracedDigits done (unplaced s) = (bracedDigits done s).unplaced := by
  fun_induction bracedDigits done s <;> simp_all [bracedDigits]

theorem fixedDigits_unplaced (done : List Char) (count : Nat) (s : Located) :
    fixedDigits done count (unplaced s) = (fixedDigits done count s).unplaced := by
  fun_induction fixedDigits done count s <;> simp_all [fixedDigits]

theorem escapeDigits_unplaced (s : Located) : escapeDigits (unplaced s) = (escapeDigits s).unplaced := by
  cases s with
  | nil => rfl
  | cons x s =>
    obtain ⟨c, p⟩ := x
    by_cases hc : c = '\x7b'
    · subst hc
      exact bracedDigits_unplaced [] s
    · rw [escapeDigits.eq_2, escapeDigits.eq_2, fixedDigits_unplaced]
      · exact fun q rest heq => hc (Prod.mk.inj (List.cons.inj heq).1).1
      · exact fun q rest heq => hc (Prod.mk.inj (List.cons.inj heq).1).1

theorem codePoint_unplaced (digits : List Char) (s : Located) :
    codePoint digits (unplaced s) = (codePoint digits s).unplaced := by
  unfold codePoint
  split <;> rfl

theorem escape_unplaced (inSet : Bool) (s : Located) : escape inSet (unplaced s) = (escape inSet s).unplaced := by
  fun_cases escape inSet s <;> simp_all [escape, escapeDigits_unplaced, codePoint_unplaced]

/-- What an escape in a literal stands for belongs to the literal. -/
theorem literal_backslash (done : List Char) (p : Position) (s : Located) : literal done (('\\', p) :: s) =
    match escape false s with
    | .ok (d, rest) => literal (d :: done) rest
    | .error e => .error e := by
  rw [literal, if_neg (by decide), if_neg (by decide), if_pos rfl]
  split
  · next h => rw [h]
  · next h => rw [h]

/-- What an escape in a set stands for belongs to the set. -/
theorem setChars_backslash (done : List (Char × Bool)) (p : Position) (s : Located) : setChars done (('\\', p) :: s) =
    match escape true s with
    | .ok (d, rest) => setChars ((d, true) :: done) rest
    | .error e => .error e := by
  rw [setChars, if_neg (by decide), if_pos rfl]
  split
  · next h => rw [h]
  · next h => rw [h]

theorem literal_unplaced (done : List Char) (s : Located) : literal done (unplaced s) = (literal done s).unplaced := by
  fun_induction literal done s with
  | case4 done p s d rest h _ _ ih => rw [unplaced_cons, literal_backslash, escape_unplaced, h, ← ih]; rfl
  | case5 done p s e h => rw [unplaced_cons, literal_backslash, escape_unplaced, h]; rfl
  | _ => simp_all [literal]

theorem setChars_unplaced (done : List (Char × Bool)) (s : Located) :
    setChars done (unplaced s) = (setChars done s).unplaced := by
  fun_induction setChars done s with
  | case3 done p s d rest h _ ih => rw [unplaced_cons, setChars_backslash, escape_unplaced, h, ← ih]; rfl
  | case4 done p s e h => rw [unplaced_cons, setChars_backslash, escape_unplaced, h]; rfl
  | _ => simp_all [setChars]

theorem set_unplaced (s : Located) : set (unplaced s) = (set s).unplaced := by
  fun_cases set s <;> simp_all [set, setChars_unplaced]

theorem action_unplaced (depth : Nat) (mark? : Option Char) (done : List Char) (s : Located) :
    action depth mark? done (unplaced s) = (action depth mark? done s).unplaced := by
  fun_induction action depth mark? done s with
  | case4 depth done c p s d h ih =>
    rw [unplaced_cons, action.eq_def]
    simp [h, ih]
  | _ => simp_all [action]

theorem symbol_unplaced (c : Char) (p : Position) (s : Located) : symbol c .start (unplaced s) = (symbol c p s).unplaced := by
  have hhead : (unplaced s).head?.map Prod.fst = s.head?.map Prod.fst := by
    rw [← List.head?_map, map_fst_unplaced, List.head?_map]
  have hdrop : (unplaced s).drop 1 = unplaced (s.drop 1) := List.map_drop.symm
  unfold symbol
  rw [literal_unplaced, set_unplaced, action_unplaced, spanOf_unplaced, spanOf_unplaced, hhead]
  split_ifs
  · rw [Read.unplaced_map]
  · rw [Read.unplaced_map]
  · rw [Read.unplaced_map]
  · rfl
  · rfl
  · rfl
  · cases mark? c (s.head?.map Prod.fst) with
    | none => rfl
    | some found =>
      obtain ⟨found, both⟩ := found
      cases both with
      | false => rfl
      | true => simp [hdrop]

/-- What is skipped after the beginning of a comment in braces of slashes and stars. -/
theorem skipTrivia_block (p q : Position) (s : Located) : skipTrivia (('/', p) :: ('*', q) :: s) =
    match skipComment? s with
    | some rest => skipTrivia rest
    | none => stop .unterminatedComment [] := by
  rw [skipTrivia]
  split
  · next h => rw [h]
  · next h => rw [h]

theorem skipTrivia_unplaced (s : Located) :
    skipTrivia (unplaced s) = ((skipTrivia s).map unplaced).mapError Stop.unplaced := by
  fun_induction skipTrivia s with
  | case1 =>
    rw [unplaced_nil, skipTrivia]
    rfl
  | case2 p q s ih =>
    rw [unplaced_cons, unplaced_cons, skipTrivia, unplaced_dropWhile fun c => decide (c ≠ '\n')]
    exact ih
  | case3 p q s rest h ih =>
    rw [unplaced_cons, unplaced_cons, skipTrivia_block, skipComment?_unplaced, h, ← ih]
    rfl
  | case4 p q s h =>
    rw [unplaced_cons, unplaced_cons, skipTrivia_block, skipComment?_unplaced, h]
    rfl
  | case5 c p s hline hblock hblank ih =>
    rw [unplaced_cons, skipTrivia, if_pos hblank, ih]
    · intro q rest hs
      obtain ⟨p', t, rfl⟩ := exists_cons_of_unplaced hs
      exact hline p' t rfl
    · intro q rest hs
      obtain ⟨p', t, rfl⟩ := exists_cons_of_unplaced hs
      exact hblock p' t rfl
  | case6 c p s hline hblock hblank =>
    rw [unplaced_cons, skipTrivia, if_neg hblank]
    · rfl
    · intro q rest hs
      obtain ⟨p', t, rfl⟩ := exists_cons_of_unplaced hs
      exact hline p' t rfl
    · intro q rest hs
      obtain ⟨p', t, rfl⟩ := exists_cons_of_unplaced hs
      exact hblock p' t rfl

/-- The symbols are read one by one. -/
theorem symbolsFrom_eq (done : List (Symbol × Position)) (s : Located) : symbolsFrom done s =
    match skipTrivia s with
    | .error e => .error e
    | .ok [] => .ok done.reverse
    | .ok ((c, p) :: rest) =>
      match symbol c p rest with
      | .ok (found, rest) => symbolsFrom ((found, p) :: done) rest
      | .error e => .error e := by
  rw [symbolsFrom]
  split
  · next h => rw [h]
  · next h => rw [h]
  · next h =>
    rw [h]
    dsimp only
    split
    · next h => rw [h]
    · next h => rw [h]

theorem symbolsFrom_unplaced (done : List (Symbol × Position)) (s : Located) :
    symbolsFrom (unplaced done) (unplaced s) = ((symbolsFrom done s).map unplaced).mapError Stop.unplaced := by
  fun_induction symbolsFrom done s with
  | case1 done s e h =>
    rw [symbolsFrom_eq, skipTrivia_unplaced, h]
    rfl
  | case2 done s h =>
    rw [symbolsFrom_eq, skipTrivia_unplaced, h]
    exact congrArg Except.ok List.map_reverse.symm
  | case3 done s c p rest h found after hsymbol ih =>
    rw [symbolsFrom_eq, skipTrivia_unplaced, h, ← ih]
    dsimp only [Except.map, Except.mapError, unplaced_cons]
    rw [symbol_unplaced c p, hsymbol]
    rfl
  | case4 done s c p rest h e hsymbol =>
    rw [symbolsFrom_eq, skipTrivia_unplaced, h]
    dsimp only [Except.map, Except.mapError, unplaced_cons]
    rw [symbol_unplaced c p, hsymbol]
    rfl

/-! ## Elements from symbols -/

/-- An error whose position is forgotten. -/
def Error.unplaced : Error → Error
  | .malformed _ _ reason => .malformed 1 1 reason
  | .unsupported construct _ => .unsupported construct 1
  | e => e

@[simp] theorem Fault.unplaced_error (fault : Fault) (p : Position) : (fault.error p).unplaced = fault.error .start := by
  cases fault <;> rfl

@[simp] theorem unplaced_faultAt (last : Position) (s : List Placed) (fault : Fault) :
    (faultAt last s fault).unplaced = faultAt .start (unplaced s) fault := by
  cases s with
  | nil => exact fault.unplaced_error last
  | cons x s => exact fault.unplaced_error x.2

/-- What is taken, with the positions of an error and of the rest forgotten. -/
def Taken.unplaced {α : Type} : Taken α → Taken α
  | .ok (a, rest) => .ok (a, Grammar.unplaced rest)
  | .error e => .error e.unplaced

section

variable {α β : Type}

@[simp] theorem Taken.unplaced_ok (a : α) (rest : List Placed) :
    Taken.unplaced (.ok (a, rest)) = .ok (a, Grammar.unplaced rest) := rfl

@[simp] theorem Taken.unplaced_error (e : Error) : Taken.unplaced (.error e : Taken α) = .error e.unplaced := rfl

theorem Taken.unplaced_mapValue (f : α → β) (r : Taken α) : (r.mapValue f).unplaced = r.unplaced.mapValue f := by
  cases r <;> rfl

end

variable (last : Position)

theorem identifier_unplaced (s : List Placed) : identifier .start (unplaced s) = (identifier last s).unplaced := by
  cases s with
  | nil => rfl
  | cons x s => obtain ⟨found, p⟩ := x; cases found <;> rfl

theorem block_unplaced (owner : String) (s : List Placed) :
    block .start owner (unplaced s) = (block last owner s).unplaced := by
  cases s with
  | nil => rfl
  | cons x s => obtain ⟨found, p⟩ := x; cases found <;> rfl

theorem expect_unplaced (symbol : Symbol) (what : String) (s : List Placed) :
    expect .start symbol what (unplaced s) = ((expect last symbol what s).map unplaced).mapError Error.unplaced := by
  cases s with
  | nil => rfl
  | cons x s =>
    obtain ⟨found, p⟩ := x
    rw [unplaced_cons, expect, expect]
    split <;> rfl

theorem leaf?_unplaced (s : List Placed) : leaf? .start (unplaced s) = (leaf? last s).map Taken.unplaced := by
  cases s with
  | nil => rfl
  | cons x s =>
    obtain ⟨found, p⟩ := x
    cases found with
    | literal text =>
      by_cases htext : text.isEmpty
      · simp [leaf?, htext]
      · -- a range is told by the two symbols after the literal
        rcases s with _ | ⟨⟨found, q⟩, s⟩
        · simp [leaf?, htext]
        · cases found with
          | doubleDot =>
            rcases s with _ | ⟨⟨found, r⟩, s⟩
            · simp [leaf?, htext]
            · cases found with
              | literal high => cases hrange : rangeOf? text high <;> simp [leaf?, htext, hrange]
              | _ => simp [leaf?, htext]
          | _ => simp [leaf?, htext]
    | tokenName name => by_cases hname : name = "EOF" <;> simp [leaf?, hname]
    | _ => rfl

theorem greediness_unplaced (s : List Placed) : greediness (unplaced s) = ((greediness s).1, unplaced (greediness s).2) := by
  cases s with
  | nil => rfl
  | cons x s => obtain ⟨found, p⟩ := x; cases found <;> rfl

theorem quantified_unplaced (e : Element) (s : List Placed) :
    quantified e (unplaced s) = ((quantified e s).1, unplaced (quantified e s).2) := by
  cases s with
  | nil => rfl
  | cons x s => obtain ⟨found, p⟩ := x; cases found <;> simp [quantified, greediness_unplaced]

theorem completed_unplaced (tildes : Nat) (e : Element) (s : List Placed) :
    completed .start tildes e (unplaced s) = (completed last tildes e s).unplaced := by
  unfold completed
  split
  · rw [quantified_unplaced]
    rfl
  · rw [Taken.unplaced_error, unplaced_faultAt]

theorem isQuestioned_unplaced (s : List Placed) : isQuestioned (unplaced s) = isQuestioned s := by
  cases s with
  | nil => rfl
  | cons x s => obtain ⟨found, p⟩ := x; cases found <;> rfl

theorem sequence_unplaced (rule : String) (frames : List Frame) (tildes : Nat) (current : List Element) (notices : List Notice)
    (s : List Placed) : sequence .start rule frames tildes current notices (unplaced s) =
      ((sequence last rule frames tildes current notices s).1.unplaced,
        (sequence last rule frames tildes current notices s).2) := by
  -- The branch is chosen by the first symbols and what was read before, so it is the same without positions.
  fun_induction sequence last rule frames tildes current notices s
  all_goals
    rw [sequence.eq_def]
    grind [leaf?_unplaced, completed_unplaced, unplaced_cons, unplaced_faultAt, Fault.unplaced_error, isQuestioned_unplaced,
      exists_cons_of_unplaced, Taken.unplaced]

/-! ## Rules from symbols -/

theorem channelOf_unplaced (rule : String) (channels : List String) (name : String) :
    (channelOf rule channels name).mapError Error.unplaced = channelOf rule channels name := by
  unfold channelOf
  split_ifs
  · rfl
  · rfl
  · split <;> rfl

theorem channel_unplaced (rule : String) (channels : List String) (s : List Placed) :
    channel .start rule channels (unplaced s) = (channel last rule channels s).unplaced := by
  have named (name : String) (s : List Placed) : (channelOf rule channels name).map (·, unplaced s) =
      Taken.unplaced ((channelOf rule channels name).map (·, s)) := by
    have herror := channelOf_unplaced rule channels name
    cases hname : channelOf rule channels name with
    | error e =>
      rw [hname] at herror
      exact congrArg Except.error (Except.error.inj herror).symm
    | ok number => rfl
  cases s with
  | nil => rfl
  | cons x s =>
    obtain ⟨found, p⟩ := x
    cases found with
    | tokenName name => exact named name s
    | ruleName name => exact named name s
    | _ => rfl

theorem channelArgument_unplaced (rule : String) (channels : List String) (s : List Placed) :
    channelArgument .start rule channels (unplaced s) = (channelArgument last rule channels s).unplaced := by
  rw [channelArgument, channelArgument, expect_unplaced last]
  cases expect last .leftParen "'(' after channel" s with
  | error e => rfl
  | ok t =>
    dsimp only [Except.map, Except.mapError]
    rw [channel_unplaced last]
    cases channel last rule channels t with
    | error e => rfl
    | ok found =>
      dsimp only [Taken.unplaced]
      rw [expect_unplaced last]
      cases expect last .rightParen "')' after channel" found.2 <;> rfl

theorem command_unplaced (rule : String) (channels : List String) (action : Action) (s : List Placed) :
    command .start rule channels action (unplaced s) = (command last rule channels action s).unplaced := by
  rw [command, command, identifier_unplaced last]
  cases identifier last s with
  | error e => rfl
  | ok found =>
    obtain ⟨name, rest⟩ := found
    dsimp only [Taken.unplaced_ok]
    split
    · rfl
    · split
      · rw [channelArgument_unplaced last, Taken.unplaced_mapValue]
      · split
        · rw [Taken.unplaced_error, unplaced_faultAt]
        · rw [Taken.unplaced_error, unplaced_faultAt]

theorem commands_unplaced (rule : String) (channels : List String) (action : Action) (s : List Placed) :
    commands .start rule channels action (unplaced s) = (commands last rule channels action s).unplaced := by
  fun_induction commands last rule channels action s
  all_goals
    rw [commands.eq_def]
    grind [command_unplaced, unplaced_cons, exists_cons_of_unplaced, Taken.unplaced]

theorem actionOf_unplaced (rule : String) (channels : List String) (s : List Placed) :
    actionOf .start rule channels (unplaced s) = (actionOf last rule channels s).unplaced := by
  cases s with
  | nil => rfl
  | cons x s =>
    obtain ⟨found, p⟩ := x
    cases found with
    | arrow => exact commands_unplaced last rule channels _ s
    | _ => rfl

theorem alternatives_unplaced (rule : String) (channels : List String) (done : List (List Element × Action))
    (notices : List Notice) (s : List Placed) : alternatives .start rule channels done notices (unplaced s) =
      ((alternatives last rule channels done notices s).1.unplaced, (alternatives last rule channels done notices s).2) := by
  fun_induction alternatives last rule channels done notices s
  all_goals
    rw [alternatives.eq_def]
    grind [sequence_unplaced, actionOf_unplaced, unplaced_cons, unplaced_faultAt, exists_cons_of_unplaced, Taken.unplaced]

theorem ruleOptions_unplaced (s : List Placed) :
    ruleOptions .start (unplaced s) = ((ruleOptions last s).map unplaced).mapError Error.unplaced := by
  fun_cases ruleOptions last s with
  | case1 p rest =>
    rw [unplaced_cons, ruleOptions, block_unplaced last]
    cases block last "options" rest <;> rfl
  | case2 s hs =>
    rw [ruleOptions]
    · rfl
    · intro p rest heq
      obtain ⟨q, t, rfl⟩ := exists_cons_of_unplaced heq
      exact hs q t rfl

end Grammar

/-- A rule whose line is forgotten. -/
def Rule.unplaced (r : Rule) : Rule := { r with line := Position.start.line }

namespace Grammar

/-- A grammar whose lines are forgotten. -/
def unplacedRules (g : Grammar) : Grammar := { g with rules := g.rules.map Rule.unplaced }

variable (last : Position)

theorem ruleOf_unplaced (isFragment : Bool) (name : String) (line : Nat) (found : List (List Element × Action))
    (s : List Placed) : ruleOf .start isFragment name Position.start.line found (unplaced s) =
      ((ruleOf last isFragment name line found s).mapValue Rule.unplaced).unplaced := by
  cases found with
  | nil => exact congrArg Except.error (unplaced_faultAt last s _).symm
  | cons alternative found =>
    rw [ruleOf, ruleOf]
    split
    · rfl
    · exact congrArg Except.error (unplaced_faultAt last s _).symm

theorem rule_unplaced (channels : List String) (isFragment : Bool) (notices : List Notice) (s : List Placed) :
    rule .start channels isFragment notices (unplaced s) =
      (((rule last channels isFragment notices s).1.mapValue Rule.unplaced).unplaced,
        (rule last channels isFragment notices s).2) := by
  cases s with
  | nil => rfl
  | cons x s =>
    obtain ⟨found, p⟩ := x
    cases found with
    | tokenName name =>
      have hcolon : (ruleOptions .start (unplaced s)).bind (expect .start .colon "':' after rule name") =
          (((ruleOptions last s).bind (expect last .colon "':' after rule name")).map unplaced).mapError Error.unplaced := by
        rw [ruleOptions_unplaced last]
        cases ruleOptions last s with
        | error e => rfl
        | ok t => exact expect_unplaced last _ _ t
      rw [unplaced_cons, rule, rule, hcolon]
      cases (ruleOptions last s).bind (expect last .colon "':' after rule name") with
      | error e => rfl
      | ok t =>
        dsimp only [Except.map, Except.mapError]
        rw [alternatives_unplaced last]
        obtain ⟨found | ⟨found, rest⟩, notices'⟩ := alternatives last name channels [] notices t
        · rfl
        · exact congrArg (·, notices') (ruleOf_unplaced last isFragment name p.line found rest)
    | _ => rfl

/-! ## Grammars from symbols -/

theorem mapM_mapError {α β : Type} {f f' : α → Except Error β} (h : ∀ a, f' a = (f a).mapError Error.unplaced) (as : List α) :
    as.mapM f' = (as.mapM f).mapError Error.unplaced := by
  induction as with
  | nil => rfl
  | cons a as ih =>
    rw [List.mapM_cons, List.mapM_cons, h, ih]
    cases f a with
    | error e => rfl
    | ok b => cases as.mapM f <;> rfl

theorem names_unplaced (body : String) (s : List Placed) :
    names .start body (unplaced s) = (names last body s).mapError Error.unplaced := by
  refine mapM_mapError (fun name => ?_) _
  split
  · rfl
  · exact congrArg Except.error (unplaced_faultAt last s _).symm

theorem nameBlock_unplaced (owner : String) (s : List Placed) :
    nameBlock .start owner (unplaced s) = (nameBlock last owner s).unplaced := by
  rw [nameBlock, nameBlock, block_unplaced last]
  cases block last owner s with
  | error e => rfl
  | ok found =>
    obtain ⟨body, rest⟩ := found
    dsimp only [Taken.unplaced_ok]
    rw [names_unplaced last]
    cases names last body rest <;> rfl

theorem actionName_unplaced (s : List Placed) : actionName .start (unplaced s) = (actionName last s).unplaced := by
  rw [actionName, actionName, identifier_unplaced last]
  obtain e | ⟨name, rest⟩ := identifier last s
  · rfl
  · rcases rest with _ | ⟨⟨found, p⟩, rest⟩
    · rfl
    · cases found with
      | doubleColon =>
        dsimp only [Taken.unplaced_ok, unplaced_cons]
        rw [identifier_unplaced last, Taken.unplaced_mapValue]
      | _ => rfl

theorem namedAction_unplaced (s : List Placed) : namedAction .start (unplaced s) = (namedAction last s).unplaced := by
  rw [namedAction, namedAction, actionName_unplaced last]
  cases actionName last s with
  | error e => rfl
  | ok found =>
    obtain ⟨name, rest⟩ := found
    dsimp only [Taken.unplaced_ok]
    rw [block_unplaced last, Taken.unplaced_mapValue]

theorem parserRule_unplaced (name : String) (literals : List String) (s : List Placed) :
    parserRule .start name literals (unplaced s) = (parserRule last name literals s).unplaced := by
  induction s generalizing literals with
  | nil => rfl
  | cons x s ih =>
    obtain ⟨found, p⟩ := x
    cases found with
    | semicolon => rfl
    | literal text =>
      rw [unplaced_cons, parserRule, parserRule]
      split
      · exact ih literals
      · exact ih _
    | _ => exact ih literals

theorem handler_unplaced (name : String) (s : List Placed) :
    handler .start name (unplaced s) = (handler last name s).unplaced := by
  cases s with
  | nil => rfl
  | cons x s =>
    obtain ⟨found, p⟩ := x
    cases found with
    | set items => exact block_unplaced last name s
    | _ => rfl

/-- What is taken and seen, with all positions forgotten. -/
def Noticed.unplaced (r : Noticed Grammar) : Noticed Grammar := ((r.1.mapValue unplacedRules).unplaced, r.2)

theorem addRule_unplaced (g : Grammar) (r : Noticed Rule) :
    addRule (unplacedRules g) ((r.1.mapValue Rule.unplaced).unplaced, r.2) = (addRule g r).unplaced := by
  obtain ⟨e | ⟨r, rest⟩, notices⟩ := r
  · rfl
  · have hany : (unplacedRules g).rules.any (·.name = r.unplaced.name) = g.rules.any (·.name = r.name) := List.any_map
    dsimp only [Taken.mapValue, Except.map, Taken.unplaced, addRule]
    rw [hany]
    split
    · exact congrArg (Except.error ·, notices) (Fault.unplaced_error _ _).symm
    · rfl

theorem wordDeclaration_unplaced (onlyLexer : Bool) (g : Grammar) (notices : List Notice) (word : String) (p : Position)
    (s : List Placed) : wordDeclaration .start onlyLexer (unplacedRules g) notices word .start (unplaced s) =
      (wordDeclaration last onlyLexer g notices word p s).unplaced := by
  have taken {α : Type} {r : Taken α} {f f' : α → Grammar} (hf : ∀ a, f' a = unplacedRules (f a)) :
      (r.unplaced.mapValue f', notices) = Noticed.unplaced (r.mapValue f, notices) := by
    obtain rfl : f' = fun a => unplacedRules (f a) := funext hf
    cases r <;> rfl
  unfold wordDeclaration
  split_ifs
  · rw [block_unplaced last]
    exact taken fun _ => rfl
  · rw [nameBlock_unplaced last]
    exact taken fun _ => rfl
  · rw [nameBlock_unplaced last]
    exact taken fun _ => rfl
  · rfl
  · rfl
  · have hrule := rule_unplaced last g.channels true notices s
    rw [show (unplacedRules g).channels = g.channels from rfl, hrule, addRule_unplaced]
  · rfl
  · rw [handler_unplaced last]
    exact taken fun _ => rfl
  · rw [show (unplacedRules g).parserLiterals = g.parserLiterals from rfl, parserRule_unplaced last]
    exact taken fun _ => rfl

theorem declaration_unplaced (onlyLexer : Bool) (g : Grammar) (notices : List Notice) (symbol : Symbol) (p : Position)
    (s : List Placed) : declaration .start onlyLexer (unplacedRules g) notices symbol .start (unplaced s) =
      (declaration last onlyLexer g notices symbol p s).unplaced := by
  cases symbol with
  | ruleName word => exact wordDeclaration_unplaced last onlyLexer g notices word p s
  | tokenName name =>
    have hrule := rule_unplaced last g.channels false notices ((.tokenName name, p) :: s)
    rw [unplaced_cons] at hrule
    rw [declaration, declaration, show (unplacedRules g).channels = g.channels from rfl, hrule, addRule_unplaced]
  | «at» =>
    rw [declaration, declaration, namedAction_unplaced last]
    obtain e | ⟨name, rest⟩ := namedAction last s
    · rfl
    · rfl
  | _ => rfl

theorem declarations_unplaced (onlyLexer : Bool) (g : Grammar) (notices : List Notice) (s : List Placed) :
    declarations .start onlyLexer (unplacedRules g) notices (unplaced s) =
      (((declarations last onlyLexer g notices s).1.map unplacedRules).mapError Error.unplaced,
        (declarations last onlyLexer g notices s).2) := by
  fun_induction declarations last onlyLexer g notices s with
  | case1 g notices =>
    rw [unplaced_nil, declarations]
    simp [unplacedRules, Except.map, Except.mapError]
  | case2 g notices symbol p s g' rest notices' h ih =>
    have hnext := declaration_unplaced last onlyLexer g notices symbol p s
    rw [h] at hnext
    rw [unplaced_cons, declarations_cons hnext, ih]
  | case3 g notices symbol p s notices' e h =>
    have hnext := declaration_unplaced last onlyLexer g notices symbol p s
    rw [h] at hnext
    rw [unplaced_cons, declarations]
    split
    · next h' => cases h'.symm.trans hnext
    · next h' =>
      cases h'.symm.trans hnext
      rfl

theorem title_unplaced (s : List Placed) : title .start (unplaced s) = (title last s).unplaced := by
  fun_cases title last s with
  | case1 p rest e h =>
    rw [unplaced_cons, title, identifier_unplaced last, h]
    rfl
  | case2 p rest name t h =>
    rw [unplaced_cons, title, identifier_unplaced last, h]
    dsimp only [Taken.unplaced_ok]
    rw [expect_unplaced last]
    cases expect last .semicolon "';' after grammar name" t <;> rfl
  | case3 s hs =>
    rw [title, Taken.unplaced_error, unplaced_faultAt]
    intro p rest heq
    obtain ⟨q, t, rfl⟩ := exists_cons_of_unplaced heq
    exact hs q t rfl

theorem header_unplaced (s : List Placed) : header .start (unplaced s) = (header last s).unplaced := by
  fun_cases header last s with
  | case1 p rest => rw [unplaced_cons, header, title_unplaced last, Taken.unplaced_mapValue]
  | case2 p rest => rfl
  | case3 s hlexer hparser =>
    rw [header, title_unplaced last, Taken.unplaced_mapValue]
    · intro p rest heq
      obtain ⟨q, t, rfl⟩ := exists_cons_of_unplaced heq
      exact hlexer q t rfl
    · intro p rest heq
      obtain ⟨q, t, rfl⟩ := exists_cons_of_unplaced heq
      exact hparser q t rfl

/-- The grammar that symbols make up does not depend on their positions, up to its lines. -/
theorem ofSymbols_unplaced (s : List Placed) : ofSymbols (unplaced s) =
    (((ofSymbols s).1.map unplacedRules).mapError Error.unplaced, (ofSymbols s).2) := by
  have hlast : (unplaced s).getLast?.elim Position.start Prod.snd = .start := by
    rw [unplaced, List.getLast?_map]
    cases s.getLast? <;> rfl
  unfold ofSymbols
  dsimp only
  rw [hlast, header_unplaced (s.getLast?.elim .start Prod.snd)]
  obtain e | ⟨⟨name, onlyLexer⟩, rest⟩ := header (s.getLast?.elim .start Prod.snd) s
  · rfl
  · exact declarations_unplaced _ onlyLexer ⟨name, [], [], [], []⟩ [] rest

/-! ## Sources -/

/-- The symbols of a source depend on its characters only, up to their positions, and so does what is wrong with it. -/
theorem symbols_unplaced (source : String) : ((symbols source).map unplaced).mapError Error.unplaced =
    (symbolsFrom [] (unplaced (Position.locate source.toList))).mapError fun e => e.fault.error .start := by
  have hread := symbolsFrom_unplaced [] (Position.locate source.toList)
  rw [unplaced_nil] at hread
  rw [hread]
  unfold symbols
  dsimp only
  split
  · next h =>
    rw [h]
    rfl
  · next fault c p s h =>
    rw [h]
    exact congrArg Except.error (Fault.unplaced_error fault p)
  · next fault h =>
    rw [h]
    exact congrArg Except.error (Fault.unplaced_error fault _)

/-- The grammar that a source is read as depends on its symbols only, up to its lines. -/
theorem read_unplaced (source : String) :
    (((read source).1.map unplacedRules).mapError Error.unplaced, (read source).2) =
      match ((symbols source).map unplaced).mapError Error.unplaced with
      | .error e => (.error e, [])
      | .ok s => ofSymbols s := by
  unfold read
  cases symbols source with
  | error e => rfl
  | ok s => exact (ofSymbols_unplaced s).symm

end Grammar

end Lexeme
