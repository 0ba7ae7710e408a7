import Lexeme.Proofs.Grammar.Spelling
import Lexeme.Proofs.Grammar.WellFormed

/-!
# The symbols of rules

The symbols that a rule is written with: its alternatives with bars between them and the command after each of them, groups
in parentheses, a tilde before a set that is negated, and after a repeat its mark, with a question mark if it is lazy. The
readers take these symbols off the beginning of a list and give back what was written, wherever it stands: elements and
groups (`sequence_operand`), sequences (`sequence_symbols`), alternatives (`alternatives_symbols`) and rules
(`rule_symbols`).
-/

namespace Lexeme

open Grammar

/-- The mark of a repeat. -/
def Quantifier.symbol : Quantifier → Symbol
  | .optional => .question
  | .zeroOrMore => .star
  | .oneOrMore => .plus

mutual

/-- The symbols of an element. -/
def Element.symbols : Element → List Symbol
  | .literal text => [.literal text]
  | .set negated items => (if negated then [.tilde] else []) ++ [.set items]
  | .any => [.dot]
  | .reference name => [.tokenName name]
  | .group alternatives => .leftParen :: (choiceSymbols [] alternatives ++ [.rightParen])
  | .repeated quantifier greedy e => e.symbols ++ quantifier.symbol :: (if greedy then [] else [.question])

/-- The symbols of a sequence. -/
def sequenceSymbols : List Element → List Symbol
  | [] => []
  | e :: es => e.symbols ++ sequenceSymbols es

/-- The symbols of alternatives with bars between them, when `after` follows each of them. -/
def choiceSymbols (after : List Symbol) : List (List Element) → List Symbol
  | [] => []
  | [es] => sequenceSymbols es ++ after
  | es :: rest => sequenceSymbols es ++ (after ++ .bar :: choiceSymbols after rest)

end

/-- The symbols of the command of a rule. -/
def Action.symbols : Action → List Symbol
  | .emit channel =>
    if channel = defaultChannel then []
    else [.arrow, .ruleName "channel", .leftParen, .integer channel, .rightParen]
  | .skip => [.arrow, .ruleName "skip"]

/-- The symbols of a rule from its name on. -/
def Rule.body (rule : Rule) : List Symbol :=
  .tokenName rule.name :: .colon :: (choiceSymbols rule.action.symbols rule.alternatives ++ [.semicolon])

/-- The symbols of a rule. -/
def Rule.symbols (rule : Rule) : List Symbol :=
  if rule.isFragment then .ruleName "fragment" :: rule.body else rule.body

namespace Grammar

variable {last : Position} {name : String} {frames : List Frame} {current : List Element} {notices : List Notice}

/-! ## Repeats -/

/-- Whether a symbol can make more of the element before it. -/
def Symbol.isPostfix : Symbol → Bool
  | question | star | plus | doubleDot => true
  | _ => false

/-- Whether the element before is complete. -/
def Apart (rest : List Placed) : Prop := ∀ x ∈ rest.head?, x.1.isPostfix = false

theorem Apart.cons {found : Symbol} (h : found.isPostfix = false) (p : Position) (rest : List Placed) :
    Apart ((found, p) :: rest) := by
  intro x hx
  obtain rfl := Option.some.inj hx
  exact h

theorem quantified_of_apart (e : Element) {rest : List Placed} (h : Apart rest) : quantified e rest = (e, rest) := by
  unfold quantified
  split
  · cases h _ rfl
  · cases h _ rfl
  · cases h _ rfl
  · rfl

theorem greediness_of_apart {rest : List Placed} (h : Apart rest) : greediness rest = (true, rest) := by
  unfold greediness
  split
  · cases h _ rfl
  · rfl

theorem quantified_marks (e : Element) (quantifier : Quantifier) (greedy : Bool) {p rest : List Placed}
    (hp : p.map Prod.fst = quantifier.symbol :: (if greedy then [] else [.question])) (hrest : Apart rest) :
    quantified e (p ++ rest) = (.repeated quantifier greedy e, rest) := by
  obtain ⟨q, t, rfl, ht⟩ := exists_cons_of_map hp
  have hgreedy : greediness (t ++ rest) = (greedy, rest) := by
    cases greedy with
    | true =>
      obtain rfl := List.map_eq_nil_iff.mp ht
      exact greediness_of_apart hrest
    | false =>
      obtain ⟨q', rfl⟩ := exists_singleton_of_map ht
      rfl
  cases quantifier <;> simp [quantified, Quantifier.symbol, hgreedy]

theorem exists_symbols_eq_cons : ∀ e : Element, ∃ found symbols, e.symbols = found :: symbols ∧ found.isPostfix = false
  | .literal _ => ⟨_, _, by rw [Element.symbols], rfl⟩
  | .set false _ => ⟨_, _, by rw [Element.symbols]; rfl, rfl⟩
  | .set true _ => ⟨_, _, by rw [Element.symbols]; rfl, rfl⟩
  | .any => ⟨_, _, by rw [Element.symbols], rfl⟩
  | .reference _ => ⟨_, _, by rw [Element.symbols], rfl⟩
  | .group _ => ⟨_, _, by rw [Element.symbols], rfl⟩
  | .repeated _ _ e => by
    obtain ⟨found, symbols, he, hfound⟩ := exists_symbols_eq_cons e
    exact ⟨found, _, by rw [Element.symbols, he, List.cons_append], hfound⟩

/-- A sequence does not add to the element before it. -/
theorem apart_sequence {es : List Element} {p rest : List Placed} (hp : p.map Prod.fst = sequenceSymbols es)
    (hrest : Apart rest) : Apart (p ++ rest) := by
  cases es with
  | nil =>
    rw [sequenceSymbols] at hp
    obtain rfl := List.map_eq_nil_iff.mp hp
    exact hrest
  | cons e es =>
    obtain ⟨found, symbols, he, hfound⟩ := exists_symbols_eq_cons e
    rw [sequenceSymbols, he, List.cons_append] at hp
    obtain ⟨q, t, rfl, -⟩ := exists_cons_of_map hp
    exact .cons hfound q _

/-! ## Steps -/

theorem sequence_leaf {tildes : Nat} {s t rest : List Placed} {e found : Element}
    (hleaf : leaf? last s = some (.ok (e, t))) (hfound : completed last tildes e t = .ok (found, rest)) :
    sequence last name frames tildes current notices s = sequence last name frames 0 (found :: current) notices rest := by
  rw [sequence.eq_def]
  split
  · cases hleaf
  · cases hleaf
  · cases hleaf
  · split
    · next h =>
      cases h.symm.trans hleaf
      split
      · next h =>
        cases h.symm.trans hfound
        rfl
      · next h => cases h.symm.trans hfound
    · next h => cases h.symm.trans hleaf
    · next h => cases h.symm.trans hleaf

theorem sequence_bar {frame : Frame} (p : Position) (rest : List Placed) :
    sequence last name (frame :: frames) 0 current notices ((.bar, p) :: rest) =
      sequence last name (frame.extend current :: frames) 0 [] notices rest := by
  rw [sequence]
  all_goals simp [leaf?]

theorem sequence_rightParen {before : List Element} {finished : List (List Element)} (p : Position) (rest : List Placed) :
    sequence last name (⟨before, 0, finished⟩ :: frames) 0 current notices ((.rightParen, p) :: rest) =
      sequence last name frames 0 ((quantified (.group (finished.reverse ++ [current.reverse])) rest).1 :: before) notices
        (quantified (.group (finished.reverse ++ [current.reverse])) rest).2 := by
  rw [sequence.eq_def]
  simp [leaf?, completed, complement?, Frame.extend, Frame.group]

/-! ## Bodies -/

/-- An element with the marks after it, unless it has its own. -/
def withMarks (e : Element) (rest : List Placed) : Element × List Placed :=
  if e.isRepeated then (e, rest) else quantified e rest

theorem withMarks_of_apart (e : Element) {rest : List Placed} (h : Apart rest) : withMarks e rest = (e, rest) := by
  unfold withMarks
  rw [quantified_of_apart e h, ite_self]

theorem leaf?_literal {text : String} (htext : text ≠ "") {rest : List Placed}
    (hrest : ∀ x ∈ rest.head?, x.1 ≠ .doubleDot) (p : Position) :
    leaf? last ((.literal text, p) :: rest) = some (.ok (.literal text, rest)) := by
  dsimp only [leaf?]
  rw [if_neg (by simpa using htext)]
  split
  · exact absurd rfl (hrest _ rfl)
  · exact absurd rfl (hrest _ rfl)
  · rfl

theorem leaf?_reference {name : String} (hname : name ≠ "EOF") (p : Position) (rest : List Placed) :
    leaf? last ((.tokenName name, p) :: rest) = some (.ok (.reference name, rest)) := by
  dsimp only [leaf?]
  rw [if_neg hname]

/-- A set is read with the tilde before it, if there is one. -/
theorem sequence_set (negated : Bool) (items : List SetItem) {p : List Placed} (rest : List Placed)
    (hp : p.map Prod.fst = (Element.set negated items).symbols) :
    sequence last name frames 0 current notices (p ++ rest) =
      sequence last name frames 0 ((quantified (.set negated items) rest).1 :: current) notices
        (quantified (.set negated items) rest).2 := by
  rw [Element.symbols] at hp
  cases negated with
  | false =>
    obtain ⟨q, rfl⟩ := exists_singleton_of_map hp
    exact sequence_leaf rfl rfl
  | true =>
    obtain ⟨q, t, rfl, ht⟩ := exists_cons_of_map hp
    obtain ⟨q', rfl⟩ := exists_singleton_of_map ht
    rw [List.cons_append, sequence]
    exact sequence_leaf rfl rfl

-- A repeat is read as its operand with the marks that follow it. So the induction is on elements with whatever follows
-- them, and an element that has its own marks may only be followed by something apart from it.
mutual

/-- An element is read back, with the marks after it. -/
theorem sequence_element (last : Position) (rule : String) : ∀ e : Element, e.WellFormed →
    ∀ (frames : List Frame) (current : List Element) (notices : List Notice) (p rest : List Placed),
    p.map Prod.fst = e.symbols → (∀ x ∈ rest.head?, x.1 ≠ .doubleDot) → (e.isRepeated = true → Apart rest) →
    sequence last rule frames 0 current notices (p ++ rest) =
      sequence last rule frames 0 ((withMarks e rest).1 :: current) notices (withMarks e rest).2
  | .literal text, hwf, frames, current, notices, p, rest, hp, hrest, _ => by
    rw [Element.WellFormed] at hwf
    rw [Element.symbols] at hp
    obtain ⟨q, rfl⟩ := exists_singleton_of_map hp
    exact sequence_leaf (leaf?_literal hwf hrest q) rfl
  | .set negated items, _, frames, current, notices, p, rest, hp, _, _ => sequence_set negated items rest hp
  | .any, _, frames, current, notices, p, rest, hp, _, _ => by
    rw [Element.symbols] at hp
    obtain ⟨q, rfl⟩ := exists_singleton_of_map hp
    exact sequence_leaf rfl rfl
  | .reference name, hwf, frames, current, notices, p, rest, hp, _, _ => by
    rw [Element.WellFormed] at hwf
    rw [Element.symbols] at hp
    obtain ⟨q, rfl⟩ := exists_singleton_of_map hp
    exact sequence_leaf (leaf?_reference hwf.2 q rest) rfl
  | .group alternatives, hwf, frames, current, notices, p, rest, hp, _, _ => by
    rw [Element.WellFormed] at hwf
    rw [Element.symbols] at hp
    obtain ⟨q, t, rfl, ht⟩ := exists_cons_of_map hp
    obtain ⟨body, u, rfl, hbody, hu⟩ := List.map_eq_append_iff.mp ht
    obtain ⟨q', rfl⟩ := exists_singleton_of_map hu
    rw [List.cons_append, List.append_assoc, sequence]
    exact sequence_choice last rule alternatives hwf.1 hwf.2 [] frames current notices q' body rest hbody
  | .repeated quantifier greedy e, hwf, frames, current, notices, p, rest, hp, _, hapart => by
    rw [Element.WellFormed] at hwf
    rw [Element.symbols] at hp
    obtain ⟨p, t, rfl, hp, ht⟩ := List.map_eq_append_iff.mp hp
    have hmarks : withMarks e (t ++ rest) = (.repeated quantifier greedy e, rest) := by
      unfold withMarks
      rw [hwf.1, if_neg Bool.false_ne_true, quantified_marks e quantifier greedy ht (hapart rfl)]
    have hmark : ∀ x ∈ (t ++ rest).head?, x.1 ≠ .doubleDot := by
      obtain ⟨q, t, rfl, -⟩ := exists_cons_of_map ht
      cases quantifier <;> simp [Quantifier.symbol]
    have hoperand : e.isRepeated = true → Apart (t ++ rest) := by
      intro h
      rw [hwf.1] at h
      cases h
    rw [List.append_assoc, sequence_element last rule e hwf.2 frames current notices p (t ++ rest) hp hmark hoperand,
      hmarks]
    rfl

/-- A sequence is read back, if what follows does not add to its last element. -/
theorem sequence_symbols (last : Position) (rule : String) : ∀ es : List Element, SequenceWellFormed es →
    ∀ (frames : List Frame) (current : List Element) (notices : List Notice) (p rest : List Placed),
    p.map Prod.fst = sequenceSymbols es → Apart rest →
    sequence last rule frames 0 current notices (p ++ rest) =
      sequence last rule frames 0 (es.reverse ++ current) notices rest
  | [], _, frames, current, notices, p, rest, hp, _ => by
    rw [sequenceSymbols] at hp
    obtain rfl := List.map_eq_nil_iff.mp hp
    rfl
  | e :: es, hwf, frames, current, notices, p, rest, hp, hrest => by
    rw [SequenceWellFormed] at hwf
    rw [sequenceSymbols] at hp
    obtain ⟨p, t, rfl, hp, ht⟩ := List.map_eq_append_iff.mp hp
    have hapart := apart_sequence ht hrest
    have hnext : ∀ x ∈ (t ++ rest).head?, x.1 ≠ .doubleDot := by
      intro x hx heq
      have hpostfix := hapart x hx
      rw [heq] at hpostfix
      cases hpostfix
    rw [List.append_assoc, List.reverse_cons, List.append_assoc, List.singleton_append,
      sequence_element last rule e hwf.1 frames current notices p (t ++ rest) hp hnext fun _ => hapart,
      withMarks_of_apart e hapart]
    exact sequence_symbols last rule es hwf.2 frames (e :: current) notices t rest ht hrest

/-- The alternatives of a group are read back, up to its parenthesis. -/
theorem sequence_choice (last : Position) (rule : String) : ∀ alternatives : List (List Element), alternatives ≠ [] →
    ChoiceWellFormed alternatives → ∀ (finished : List (List Element)) (frames : List Frame) (before : List Element)
    (notices : List Notice) (q : Position) (p rest : List Placed), p.map Prod.fst = choiceSymbols [] alternatives →
    sequence last rule (⟨before, 0, finished⟩ :: frames) 0 [] notices (p ++ (.rightParen, q) :: rest) =
      sequence last rule frames 0 ((quantified (.group (finished.reverse ++ alternatives)) rest).1 :: before) notices
        (quantified (.group (finished.reverse ++ alternatives)) rest).2
  | [], hne, _, _, _, _, _, _, _, _, _ => absurd rfl hne
  | [es], _, hwf, finished, frames, before, notices, q, p, rest, hp => by
    rw [ChoiceWellFormed] at hwf
    rw [choiceSymbols, List.append_nil] at hp
    rw [sequence_symbols last rule es hwf.1 _ _ _ p _ hp (.cons rfl q rest), sequence_rightParen, List.append_nil,
      List.reverse_reverse]
  | es :: es' :: alternatives, _, hwf, finished, frames, before, notices, q, p, rest, hp => by
    rw [ChoiceWellFormed] at hwf
    rw [choiceSymbols, List.nil_append] at hp
    · obtain ⟨first, t, rfl, hfirst, ht⟩ := List.map_eq_append_iff.mp hp
      obtain ⟨q', t, rfl, ht'⟩ := exists_cons_of_map ht
      rw [List.append_assoc, List.cons_append, sequence_symbols last rule es hwf.1 _ _ _ first _ hfirst (.cons rfl q' _),
        sequence_bar]
      have hread := sequence_choice last rule (es' :: alternatives) (List.cons_ne_nil _ _) hwf.2 (es :: finished) frames
        before notices q t rest ht'
      simpa [Frame.extend] using hread
    · simp

end

/-! ## Alternatives -/

/-- The symbols that end an alternative and its command. -/
def Symbol.endsAlternative : Symbol → Bool
  | bar | semicolon => true
  | _ => false

/-- A sequence ends where its alternative does, or before a command. -/
theorem sequence_end {found : Symbol} (hfound : found.endsAlternative = true ∨ found = .arrow) (p : Position)
    (rest : List Placed) : sequence last name [] 0 current notices ((found, p) :: rest) =
      (.ok (current.reverse, (found, p) :: rest), notices) := by
  rw [sequence.eq_def]
  cases found <;> simp_all [Symbol.endsAlternative, leaf?]

theorem command_symbols (name : String) (channels : List String) (channel : Nat) (p₁ p₂ p₃ p₄ : Position)
    (rest : List Placed) : command last name channels (.emit defaultChannel) ((.ruleName "channel", p₁) ::
      (.leftParen, p₂) :: (.integer channel, p₃) :: (.rightParen, p₄) :: rest) = .ok (.emit channel, rest) := by
  simp [command, identifier, channelArgument, expect, Grammar.channel, Taken.mapValue, Except.map]

/-- A command ends where its alternative does. -/
theorem commands_of_command {channels : List String} {action found : Action} {s rest : List Placed}
    (h : command last name channels action s = .ok (found, rest))
    (hrest : ∀ x ∈ rest.head?, x.1.endsAlternative = true) : commands last name channels action s = .ok (found, rest) := by
  rw [commands.eq_def]
  split
  · next h' => cases h.symm.trans h'
  · next h' =>
    cases h.symm.trans h'
    cases hrest _ rfl
  · next h' => exact h'.symm.trans h

/-- The command of an alternative is read back. -/
theorem actionOf_symbols (channels : List String) (action : Action) {p rest : List Placed}
    (hp : p.map Prod.fst = action.symbols) (hrest : ∀ x ∈ rest.head?, x.1.endsAlternative = true) :
    actionOf last name channels (p ++ rest) = .ok (action, rest) := by
  cases action with
  | skip =>
    obtain ⟨p₁, t₁, rfl, h₁⟩ := exists_cons_of_map hp
    obtain ⟨p₂, rfl⟩ := exists_singleton_of_map h₁
    exact commands_of_command rfl hrest
  | emit channel =>
    rw [Action.symbols] at hp
    by_cases hdefault : channel = defaultChannel
    · rw [if_pos hdefault] at hp
      obtain rfl := List.map_eq_nil_iff.mp hp
      subst hdefault
      rw [List.nil_append]
      unfold actionOf
      split
      · cases hrest _ rfl
      · rfl
    · rw [if_neg hdefault] at hp
      obtain ⟨p₁, t₁, rfl, h₁⟩ := exists_cons_of_map hp
      obtain ⟨p₂, t₂, rfl, h₂⟩ := exists_cons_of_map h₁
      obtain ⟨p₃, t₃, rfl, h₃⟩ := exists_cons_of_map h₂
      obtain ⟨p₄, t₄, rfl, h₄⟩ := exists_cons_of_map h₃
      obtain ⟨p₅, rfl⟩ := exists_singleton_of_map h₄
      exact commands_of_command (command_symbols name channels channel p₂ p₃ p₄ p₅ rest) hrest

theorem exists_head_of_action (action : Action) {t : List Placed} (ht : t.map Prod.fst = action.symbols) {found : Symbol}
    (hfound : found.endsAlternative = true) (q : Position) (rest : List Placed) :
    ∃ next p u, t ++ (found, q) :: rest = (next, p) :: u ∧ (next.endsAlternative = true ∨ next = .arrow) := by
  cases t with
  | nil => exact ⟨found, q, rest, rfl, .inl hfound⟩
  | cons x t =>
    obtain ⟨next, p⟩ := x
    refine ⟨next, p, t ++ (found, q) :: rest, rfl, .inr ?_⟩
    cases action with
    | skip => exact (List.cons.inj ht).1
    | emit channel =>
      rw [Action.symbols] at ht
      by_cases hdefault : channel = defaultChannel
      · rw [if_pos hdefault] at ht
        cases ht
      · rw [if_neg hdefault] at ht
        exact (List.cons.inj ht).1

/-- The elements and the command of an alternative are read back. -/
theorem sequence_alternative {es : List Element} (hwf : SequenceWellFormed es) (channels : List String) (action : Action)
    {p t rest : List Placed} (hp : p.map Prod.fst = sequenceSymbols es) (ht : t.map Prod.fst = action.symbols)
    {found : Symbol} (hfound : found.endsAlternative = true) (q : Position) :
    sequence last name [] 0 [] notices (p ++ (t ++ (found, q) :: rest)) = (.ok (es, t ++ (found, q) :: rest), notices) ∧
      actionOf last name channels (t ++ (found, q) :: rest) = .ok (action, (found, q) :: rest) := by
  refine ⟨?_, actionOf_symbols channels action ht (by simpa using hfound)⟩
  obtain ⟨next, p', u, heq, hnext⟩ := exists_head_of_action action ht hfound q rest
  have hpostfix : next.isPostfix = false := by
    rcases hnext with hnext | rfl
    · cases next <;> first | rfl | cases hnext
    · rfl
  rw [heq, sequence_symbols last name es hwf [] [] notices p _ hp (.cons hpostfix p' u), sequence_end hnext,
    List.append_nil, List.reverse_reverse]

/-- After an alternative and its command, the next symbol decides. -/
theorem alternatives_of_sequence {channels : List String} {done : List (List Element × Action)} {es : List Element}
    {notices' : List Notice} {action : Action} {s t rest : List Placed}
    (hsequence : sequence last name [] 0 [] notices s = (.ok (es, t), notices')) :
    actionOf last name channels t = .ok (action, rest) → alternatives last name channels done notices s =
      match rest with
      | (.bar, _) :: rest => alternatives last name channels ((es, action) :: done) notices' rest
      | (.semicolon, _) :: rest => (.ok (((es, action) :: done).reverse, rest), notices')
      | rest => (.error (faultAt last rest (.unfinishedRule name)), notices') := by
  intro haction
  rw [alternatives.eq_def]
  split
  · next h => cases h.symm.trans hsequence
  · next h =>
    cases h.symm.trans hsequence
    split
    · next h => cases h.symm.trans haction
    · next h =>
      cases h.symm.trans haction
      rfl
    · next h =>
      cases h.symm.trans haction
      rfl
    · next hbar hsemicolon h =>
      cases h.symm.trans haction
      split
      · exact (hbar _ _ rfl).elim
      · exact (hsemicolon _ _ rfl).elim
      · rfl

/-- The alternatives of a rule are read back, each with the command of the rule. -/
theorem alternatives_symbols {es : List (List Element)} (hne : es ≠ []) (hwf : ChoiceWellFormed es)
    (channels : List String) (action : Action) (done : List (List Element × Action)) {p : List Placed}
    (hp : p.map Prod.fst = choiceSymbols action.symbols es) (q : Position) (rest : List Placed) :
    alternatives last name channels done notices (p ++ (.semicolon, q) :: rest) =
      (.ok (done.reverse ++ es.map fun e => (e, action), rest), notices) := by
  induction es generalizing done p with
  | nil => exact absurd rfl hne
  | cons e es ih =>
    rw [ChoiceWellFormed] at hwf
    cases es with
    | nil =>
      rw [choiceSymbols] at hp
      obtain ⟨s, t, rfl, hs, ht⟩ := List.map_eq_append_iff.mp hp
      obtain ⟨hsequence, haction⟩ := @sequence_alternative last name notices e hwf.1 channels action s t rest hs ht
        .semicolon rfl q
      rw [List.append_assoc, alternatives_of_sequence hsequence haction]
      simp
    | cons e' es =>
      rw [choiceSymbols] at hp
      · obtain ⟨s, u, rfl, hs, hu⟩ := List.map_eq_append_iff.mp hp
        obtain ⟨t, u, rfl, ht, hu⟩ := List.map_eq_append_iff.mp hu
        obtain ⟨q', u, rfl, hothers⟩ := exists_cons_of_map hu
        obtain ⟨hsequence, haction⟩ := @sequence_alternative last name notices e hwf.1 channels action s t
          (u ++ (.semicolon, q) :: rest) hs ht .bar rfl q'
        rw [List.append_assoc, List.append_assoc, List.cons_append, alternatives_of_sequence hsequence haction]
        dsimp only
        rw [ih (List.cons_ne_nil _ _) hwf.2 ((e, action) :: done) hothers]
        simp
      · simp

/-! ## Rules -/

/-- A rule is read back, with the line on which it stands. -/
theorem rule_symbols {r : Rule} (hwf : r.WellFormed) (channels : List String) {p : List Placed}
    (hp : p.map Prod.fst = r.body) (rest : List Placed) :
    ∃ line, rule last channels r.isFragment notices (p ++ rest) = (.ok ({ r with line := line }, rest), notices) := by
  unfold Rule.body at hp
  obtain ⟨p₁, t₁, rfl, h₁⟩ := exists_cons_of_map hp
  obtain ⟨p₂, t₂, rfl, h₂⟩ := exists_cons_of_map h₁
  obtain ⟨t₃, t₄, rfl, h₃, h₄⟩ := List.map_eq_append_iff.mp h₂
  obtain ⟨p₃, rfl⟩ := exists_singleton_of_map h₄
  have hcolon : (ruleOptions last ((.colon, p₂) :: (t₃ ++ (.semicolon, p₃) :: rest))).bind
      (expect last .colon "':' after rule name") = .ok (t₃ ++ (.semicolon, p₃) :: rest) := rfl
  have hread := @alternatives_symbols last r.name notices r.alternatives hwf.alternatives_ne_nil hwf.alternatives channels
    r.action [] t₃ h₃ p₃ rest
  have hof : ruleOf last r.isFragment r.name p₁.line (r.alternatives.map fun e => (e, r.action)) rest =
      .ok ({ r with line := p₁.line }, rest) := by
    obtain ⟨es, others, halternatives⟩ := List.exists_cons_of_ne_nil hwf.alternatives_ne_nil
    rw [halternatives]
    simp [ruleOf, Function.comp_def]
  refine ⟨p₁.line, ?_⟩
  rw [List.cons_append, List.cons_append, List.append_assoc, List.singleton_append]
  unfold rule
  dsimp only
  rw [hcolon]
  dsimp only
  rw [hread]
  dsimp only
  rw [List.reverse_nil, List.nil_append, hof]

end Grammar

end Lexeme
