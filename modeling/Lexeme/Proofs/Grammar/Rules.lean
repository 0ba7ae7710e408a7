import Lexeme.Proofs.Grammar.Printing

/-!
# How rules are written

A rule is a name, options that have no effect, a colon, and alternatives with bars between them up to a semicolon; after an
alternative stands an arrow with commands, or nothing (`RuleRead`). What becomes of the texts of an alternative is decided
by its commands together (`Action.after`). The readers accept just what can be written so: channels (`channel_eq_ok_iff`),
commands (`actionOf_eq_ok_iff`), alternatives (`alternatives_of_read`, `exists_alternativesRead`) and rules
(`rule_eq_ok_iff`). A rule has the action that is written on each of its alternatives (`Rule.Read`), and alternatives that
disagree are refused (`ruleOf_eq_error`).
-/

namespace Lexeme

open Grammar

namespace Grammar

variable {last : Position}

/-! ## Commands -/

/-- Whether a symbol is a given word. -/
def Symbol.IsWord (word : String) (symbol : Symbol) : Prop :=
  symbol = .tokenName word ∨ symbol = .ruleName word

theorem identifier_eq_ok_iff {name : String} {s rest : List Placed} :
    identifier last s = .ok (name, rest) ↔ ∃ symbol p, s = (symbol, p) :: rest ∧ symbol.IsWord name := by
  constructor
  · intro h
    unfold identifier at h
    split at h
    · cases h
      exact ⟨_, _, rfl, .inl rfl⟩
    · cases h
      exact ⟨_, _, rfl, .inr rfl⟩
    · cases h
  · rintro ⟨symbol, p, rfl, rfl | rfl⟩ <;> rfl

theorem expect_eq_ok_iff {symbol : Symbol} {what : String} {s rest : List Placed} :
    expect last symbol what s = .ok rest ↔ ∃ p, s = (symbol, p) :: rest := by
  constructor
  · intro h
    unfold expect at h
    split at h
    · cases h
    · next found p t =>
      split at h
      · next hfound =>
        cases h
        exact ⟨p, by rw [hfound]⟩
      · cases h
  · rintro ⟨p, rfl⟩
    simp [expect]

theorem block_eq_ok_iff {owner body : String} {s rest : List Placed} :
    block last owner s = .ok (body, rest) ↔ ∃ p, s = (.action body, p) :: rest := by
  constructor
  · intro h
    unfold block at h
    split at h
    · cases h
      exact ⟨_, rfl⟩
    · cases h
  · rintro ⟨p, rfl⟩
    rfl

theorem map_eq_ok_iff {α β : Type} {f : α → β} {r : Except Error α} {b : β} :
    r.map f = .ok b ↔ ∃ a, r = .ok a ∧ f a = b := by
  cases r with
  | error e => exact iff_of_false nofun nofun
  | ok a => exact ⟨fun h => ⟨a, rfl, Except.ok.inj h⟩, fun ⟨_, ha, h⟩ => by cases ha; exact congrArg _ h⟩

/-- The channels that symbols denote, in a rule before which `channels` have been declared. -/
inductive DenotesChannel (channels : List String) : Symbol → Nat → Prop
  | number (n : Nat) : DenotesChannel channels (.integer n) n
  | hidden {symbol : Symbol} (h : symbol.IsWord "HIDDEN") : DenotesChannel channels symbol hiddenChannel
  | default {symbol : Symbol} (h : symbol.IsWord "DEFAULT_TOKEN_CHANNEL") : DenotesChannel channels symbol defaultChannel
  | declared {symbol : Symbol} {name : String} {index : Nat} (h : symbol.IsWord name) (hhidden : name ≠ "HIDDEN")
      (hdefault : name ≠ "DEFAULT_TOKEN_CHANNEL") (hindex : channels.idxOf? name = some index) :
      DenotesChannel channels symbol (firstChannel + index)

theorem channelOf_eq_ok_iff {rule name : String} {channels : List String} {n : Nat} {symbol : Symbol}
    (hword : symbol.IsWord name) : channelOf rule channels name = .ok n ↔ DenotesChannel channels symbol n := by
  have hname {other : String} (h : symbol.IsWord other) : other = name := by
    rcases hword with rfl | rfl <;> rcases h with h | h <;> cases h <;> rfl
  constructor
  · intro h
    unfold channelOf at h
    split at h
    · next hhidden =>
      cases h
      exact .hidden (hhidden ▸ hword)
    · next hhidden =>
      split at h
      · next hdefault =>
        cases h
        exact .default (hdefault ▸ hword)
      · next hdefault =>
        split at h
        · next hindex =>
          cases h
          exact .declared hword hhidden hdefault hindex
        · cases h
  · intro h
    cases h with
    | number => rcases hword with h | h <;> cases h
    | hidden h => simp [channelOf, ← hname h]
    | default h => simp [channelOf, ← hname h]
    | declared h hhidden hdefault hindex =>
      obtain rfl := hname h
      simp [channelOf, hhidden, hdefault, hindex]

theorem channel_eq_ok_iff {rule : String} {channels : List String} {n : Nat} {s rest : List Placed} :
    channel last rule channels s = .ok (n, rest) ↔
      ∃ symbol p, s = (symbol, p) :: rest ∧ DenotesChannel channels symbol n := by
  have named {name : String} {symbol : Symbol} {p : Position} {t : List Placed} (hword : symbol.IsWord name) :
      (channelOf rule channels name).map (·, t) = .ok (n, rest) ↔
        ∃ symbol' p', (symbol, p) :: t = (symbol', p') :: rest ∧ DenotesChannel channels symbol' n := by
    rw [map_eq_ok_iff]
    constructor
    · rintro ⟨a, ha, h⟩
      cases h
      exact ⟨_, _, rfl, (channelOf_eq_ok_iff hword).mp ha⟩
    · rintro ⟨symbol', p', h, hdenotes⟩
      cases h
      exact ⟨n, (channelOf_eq_ok_iff hword).mpr hdenotes, rfl⟩
  unfold channel
  split
  · next number p t =>
    constructor
    · intro h
      cases h
      exact ⟨_, _, rfl, .number _⟩
    · rintro ⟨symbol, p', h, hdenotes⟩
      cases h
      cases hdenotes with
      | number => rfl
      | hidden h => rcases h with h | h <;> cases h
      | default h => rcases h with h | h <;> cases h
      | declared h => rcases h with h | h <;> cases h
  · exact named (.inl rfl)
  · exact named (.inr rfl)
  · next hinteger htoken hrule =>
    refine iff_of_false nofun ?_
    have hnot {symbol : Symbol} {p : Position} {word : String} (h : symbol.IsWord word) (hs : s = (symbol, p) :: rest) :
        False := by
      rcases h with rfl | rfl
      · exact htoken _ _ _ hs
      · exact hrule _ _ _ hs
    rintro ⟨symbol, p, hs, hdenotes⟩
    cases hdenotes with
    | number => exact hinteger _ _ _ hs
    | hidden h => exact hnot h hs
    | default h => exact hnot h hs
    | declared h => exact hnot h hs

/-- What a command asks for. -/
inductive Command where
  | skip
  | channel (number : Nat)
deriving DecidableEq

namespace Command

/-- The channel that a command names. -/
def number? : Command → Option Nat
  | skip => none
  | channel number => some number

/-- The ways to write a command, where `channels` have been declared. -/
inductive Written (channels : List String) : Command → List Symbol → Prop
  | skip {word : Symbol} (hword : word.IsWord "skip") : Written channels skip [word]
  | channel {word symbol : Symbol} {number : Nat} (hword : word.IsWord "channel")
      (h : DenotesChannel channels symbol number) :
      Written channels (channel number) [word, .leftParen, symbol, .rightParen]

end Command

end Grammar

/-- What becomes of texts after commands: they are skipped if one of the commands says so, else they stand on the channel
that is named last. -/
def Action.after (action : Action) (commands : List Command) : Action :=
  if action = .skip ∨ .skip ∈ commands then .skip
  else (commands.filterMap Command.number?).getLast?.elim action .emit

theorem Action.after_skip (action : Action) : action.after [.skip] = .skip := by
  simp [after]

theorem Action.after_channel (action : Action) (n : Nat) :
    action.after [.channel n] = if action = .skip then .skip else .emit n := by
  simp [after, Command.number?]

/-- Commands have their effects one after the other. -/
theorem Action.after_cons (action : Action) (command : Command) (commands : List Command) :
    action.after (command :: commands) = (action.after [command]).after commands := by
  cases command with
  | skip => simp [after]
  | channel n =>
    rw [after_channel]
    by_cases haction : action = .skip
    · simp [after, haction]
    · cases hlast : (commands.filterMap Command.number?).getLast? <;>
        simp [after, haction, Command.number?, List.getLast?_cons, hlast]

namespace Grammar

variable {last : Position} {rule : String} {channels : List String}

/-- The ways to write one command or more, with commas between them. -/
inductive CommandsWritten (channels : List String) : List Command → List Symbol → Prop
  | one {command : Command} {w : List Symbol} (h : command.Written channels w) : CommandsWritten channels [command] w
  | cons {command : Command} {commands : List Command} {w ws : List Symbol} (h : command.Written channels w)
      (hs : CommandsWritten channels commands ws) : CommandsWritten channels (command :: commands) (w ++ .comma :: ws)

/-- The ways to write after an alternative what becomes of its texts. Without commands, they stand on the default
channel. -/
inductive ActionWritten (channels : List String) : Action → List Symbol → Prop
  | none : ActionWritten channels (.emit defaultChannel) []
  | commands {commands : List Command} {w : List Symbol} (h : CommandsWritten channels commands w) :
      ActionWritten channels (Action.after (.emit defaultChannel) commands) (.arrow :: w)

theorem channelArgument_eq_ok_iff {n : Nat} {s rest : List Placed} :
    channelArgument last rule channels s = .ok (n, rest) ↔ ∃ symbol p q r,
      s = (.leftParen, p) :: (symbol, q) :: (.rightParen, r) :: rest ∧ DenotesChannel channels symbol n := by
  constructor
  · intro h
    unfold channelArgument at h
    split at h
    · cases h
    · next t hopen =>
      split at h
      · cases h
      · next number u hchannel =>
        obtain ⟨v, hclose, hv⟩ := map_eq_ok_iff.mp h
        cases hv
        obtain ⟨p, rfl⟩ := expect_eq_ok_iff.mp hopen
        obtain ⟨symbol, q, rfl, hdenotes⟩ := channel_eq_ok_iff.mp hchannel
        obtain ⟨r, rfl⟩ := expect_eq_ok_iff.mp hclose
        exact ⟨symbol, p, q, r, rfl, hdenotes⟩
  · rintro ⟨symbol, p, q, r, rfl, hdenotes⟩
    unfold channelArgument
    rw [expect_eq_ok_iff.mpr ⟨p, rfl⟩]
    dsimp only
    rw [channel_eq_ok_iff.mpr ⟨symbol, q, rfl, hdenotes⟩]
    dsimp only
    rw [expect_eq_ok_iff.mpr ⟨r, rfl⟩]
    rfl

theorem command_eq_ok_iff {action found : Action} {s rest : List Placed} :
    command last rule channels action s = .ok (found, rest) ↔ ∃ c p, s = p ++ rest ∧
      Command.Written channels c (p.map Prod.fst) ∧ found = action.after [c] := by
  constructor
  · intro h
    unfold command at h
    split at h
    · cases h
    · next name t hname =>
      obtain ⟨word, p, rfl, hword⟩ := identifier_eq_ok_iff.mp hname
      split at h
      · next hskip =>
        cases h
        exact ⟨.skip, [(word, p)], rfl, .skip (hskip ▸ hword), (action.after_skip).symm⟩
      · split at h
        · next hchannel =>
          obtain ⟨n, hargument, rfl⟩ := Taken.mapValue_eq_ok h
          obtain ⟨symbol, p₁, p₂, p₃, rfl, hdenotes⟩ := channelArgument_eq_ok_iff.mp hargument
          refine ⟨.channel n, [(word, p), (.leftParen, p₁), (symbol, p₂), (.rightParen, p₃)], rfl, ?_,
            (action.after_channel n).symm⟩
          exact .channel (hchannel ▸ hword) hdenotes
        · split at h <;> cases h
  · rintro ⟨c, p, rfl, hwritten, rfl⟩
    generalize hw : p.map Prod.fst = w at hwritten
    cases hwritten with
    | skip hword =>
      obtain ⟨q, t, rfl, ht⟩ := exists_cons_of_map hw
      obtain rfl := List.map_eq_nil_iff.mp ht
      simp [command, identifier_eq_ok_iff.mpr ⟨_, _, rfl, hword⟩, Action.after_skip]
    | @channel word symbol n hword hdenotes =>
      obtain ⟨p₁, t₁, rfl, h₁⟩ := exists_cons_of_map hw
      obtain ⟨p₂, t₂, rfl, h₂⟩ := exists_cons_of_map h₁
      obtain ⟨p₃, t₃, rfl, h₃⟩ := exists_cons_of_map h₂
      obtain ⟨p₄, t₄, rfl, h₄⟩ := exists_cons_of_map h₃
      obtain rfl := List.map_eq_nil_iff.mp h₄
      have hargument := (@channelArgument_eq_ok_iff last rule channels n _ rest).mpr
        ⟨symbol, p₂, p₃, p₄, rfl, hdenotes⟩
      simp [command, identifier_eq_ok_iff.mpr ⟨_, _, rfl, hword⟩, hargument, Taken.mapValue, Except.map,
        Action.after_channel]

theorem exists_commandsWritten_of_commands {action found : Action} {s rest : List Placed}
    (h : commands last rule channels action s = .ok (found, rest)) : ∃ cs p, s = p ++ rest ∧
      CommandsWritten channels cs (p.map Prod.fst) ∧ found = action.after cs := by
  fun_induction commands last rule channels action s with
  | case1 => cases h
  | case2 action s next q t hnext ih =>
    obtain ⟨c, p, rfl, hc, rfl⟩ := command_eq_ok_iff.mp hnext
    obtain ⟨cs, ps, rfl, hcs, rfl⟩ := ih h
    refine ⟨c :: cs, p ++ (.comma, q) :: ps, by simp, ?_, (action.after_cons c cs).symm⟩
    rw [List.map_append, List.map_cons]
    exact .cons hc hcs
  | case3 action s next t _ hnext =>
    cases h
    obtain ⟨c, p, rfl, hc, rfl⟩ := command_eq_ok_iff.mp hnext
    exact ⟨[c], p, rfl, .one hc, rfl⟩

theorem commands_comma {action next : Action} {q : Position} {s t : List Placed}
    (h : command last rule channels action s = .ok (next, (.comma, q) :: t)) :
    commands last rule channels action s = commands last rule channels next t := by
  rw [commands.eq_def]
  split
  · next h' => cases h.symm.trans h'
  · next h' => cases h.symm.trans h'; rfl
  · next hcomma h' => cases h.symm.trans h'; exact (hcomma _ _ rfl).elim

/-- Commands are taken up to the end of their alternative. -/
theorem commands_of_written {action : Action} {cs : List Command} {w : List Symbol} (h : CommandsWritten channels cs w)
    {p : List Placed} (hp : p.map Prod.fst = w) {rest : List Placed}
    (hrest : ∀ x ∈ rest.head?, x.1.endsAlternative = true) :
    commands last rule channels action (p ++ rest) = .ok (action.after cs, rest) := by
  induction h generalizing action p with
  | one h => exact commands_of_command (command_eq_ok_iff.mpr ⟨_, p, rfl, hp ▸ h, rfl⟩) hrest
  | @cons c cs w ws h hs ih =>
    obtain ⟨first, others, rfl, hfirst, hothers⟩ := List.map_eq_append_iff.mp hp
    obtain ⟨q, others, rfl, hmore⟩ := exists_cons_of_map hothers
    rw [List.append_assoc, List.cons_append, commands_comma (command_eq_ok_iff.mpr ⟨c, first, rfl, hfirst ▸ h, rfl⟩),
      ih hmore, ← action.after_cons]

/-- What becomes of texts is read just where it is written, up to the end of the alternative. -/
theorem actionOf_eq_ok_iff {action : Action} {s rest : List Placed} {mark : Symbol} {q : Position}
    (hmark : mark.endsAlternative = true) :
    actionOf last rule channels s = .ok (action, (mark, q) :: rest) ↔
      ∃ p, s = p ++ (mark, q) :: rest ∧ ActionWritten channels action (p.map Prod.fst) := by
  constructor
  · intro h
    unfold actionOf at h
    split at h
    · next q' t =>
      obtain ⟨cs, p, rfl, hcs, rfl⟩ := exists_commandsWritten_of_commands h
      exact ⟨(.arrow, q') :: p, rfl, .commands hcs⟩
    · cases h
      exact ⟨[], rfl, .none⟩
  · rintro ⟨p, rfl, hwritten⟩
    generalize hw : p.map Prod.fst = w at hwritten
    cases hwritten with
    | none =>
      obtain rfl := List.map_eq_nil_iff.mp hw
      rw [List.nil_append]
      unfold actionOf
      split
      · next heq =>
        cases heq
        cases hmark
      · rfl
    | commands h =>
      obtain ⟨q', t, rfl, ht⟩ := exists_cons_of_map hw
      exact commands_of_written h ht (by simpa using hmark)

/-! ## Rules -/

/-- The notices that are kept have no effect on the elements of a sequence. -/
theorem sequence_fst {frames : List Frame} {tildes : Nat} {current : List Element} (notices notices' : List Notice)
    (s : List Placed) : (sequence last rule frames tildes current notices s).1 =
      (sequence last rule frames tildes current notices' s).1 := by
  fun_induction sequence last rule frames tildes current notices s generalizing notices'
  all_goals
    conv_rhs => rw [sequence.eq_def]
    grind

/-- The alternatives of a rule that symbols begin with, up to its semicolon, each with what becomes of its texts, and the
symbols after them. -/
inductive AlternativesRead (last : Position) (rule : String) (channels : List String) :
    List (List Element × Action) → List Placed → List Placed → Prop
  | last {es : List Element} {action : Action} {s p rest : List Placed} {q : Position}
      (hes : (sequence last rule [] 0 [] [] s).1 = .ok (es, p ++ (.semicolon, q) :: rest))
      (haction : ActionWritten channels action (p.map Prod.fst)) :
      AlternativesRead last rule channels [(es, action)] s rest
  | cons {es : List Element} {action : Action} {found : List (List Element × Action)} {s p t rest : List Placed}
      {q : Position} (hes : (sequence last rule [] 0 [] [] s).1 = .ok (es, p ++ (.bar, q) :: t))
      (haction : ActionWritten channels action (p.map Prod.fst)) (h : AlternativesRead last rule channels found t rest) :
      AlternativesRead last rule channels ((es, action) :: found) s rest

theorem AlternativesRead.ne_nil {found : List (List Element × Action)} {s rest : List Placed}
    (h : AlternativesRead last rule channels found s rest) : found ≠ [] := by
  cases h <;> exact List.cons_ne_nil _ _

theorem exists_alternativesRead {done found : List (List Element × Action)} {notices : List Notice} {s rest : List Placed}
    (h : (alternatives last rule channels done notices s).1 = .ok (found, rest)) :
    ∃ more, AlternativesRead last rule channels more s rest ∧ found = done.reverse ++ more := by
  fun_induction alternatives last rule channels done notices s with
  | case1 => cases h
  | case2 => cases h
  | case3 done notices s es t notices' hsequence action q u haction ih =>
    obtain ⟨p, rfl, hwritten⟩ := (actionOf_eq_ok_iff rfl).mp haction
    obtain ⟨more, hmore, rfl⟩ := ih h
    have hes : (sequence last rule [] 0 [] [] s).1 = .ok (es, p ++ (.bar, q) :: u) := by
      rw [sequence_fst [] notices, hsequence]
    exact ⟨(es, action) :: more, .cons hes hwritten hmore, by simp⟩
  | case4 done notices s es t notices' hsequence action q u haction =>
    cases h
    obtain ⟨p, rfl, hwritten⟩ := (actionOf_eq_ok_iff rfl).mp haction
    have hes : (sequence last rule [] 0 [] [] s).1 = .ok (es, p ++ (.semicolon, q) :: rest) := by
      rw [sequence_fst [] notices, hsequence]
    exact ⟨[(es, action)], .last hes hwritten, by simp⟩
  | case5 => cases h

theorem alternatives_of_read {found : List (List Element × Action)} {s rest : List Placed}
    (h : AlternativesRead last rule channels found s rest) (done : List (List Element × Action)) (notices : List Notice) :
    (alternatives last rule channels done notices s).1 = .ok (done.reverse ++ found, rest) := by
  have hsequence {es : List Element} {s t : List Placed} (hes : (sequence last rule [] 0 [] [] s).1 = .ok (es, t))
      (notices : List Notice) : ∃ notices', sequence last rule [] 0 [] notices s = (.ok (es, t), notices') :=
    ⟨_, Prod.ext ((sequence_fst notices [] s).trans hes) rfl⟩
  induction h generalizing done notices with
  | last hes haction =>
    obtain ⟨notices', hes⟩ := hsequence hes notices
    rw [alternatives_of_sequence hes ((actionOf_eq_ok_iff rfl).mpr ⟨_, rfl, haction⟩)]
    simp
  | cons hes haction _ ih =>
    obtain ⟨notices', hes⟩ := hsequence hes notices
    rw [alternatives_of_sequence hes ((actionOf_eq_ok_iff rfl).mpr ⟨_, rfl, haction⟩)]
    dsimp only
    rw [ih]
    simp

/-- The ways to write the options of a rule, or none. -/
inductive OptionsWritten : List Symbol → Prop
  | none : OptionsWritten []
  | block (body : String) : OptionsWritten [.ruleName "options", .action body]

/-- The name, the line and the alternatives of a rule that symbols begin with, and the symbols after the rule. -/
inductive RuleRead (last : Position) (channels : List String) :
    String → Nat → List (List Element × Action) → List Placed → List Placed → Prop
  | intro {name : String} {found : List (List Element × Action)} {p q : Position} {options s rest : List Placed}
      (hoptions : OptionsWritten (options.map Prod.fst)) (h : AlternativesRead last name channels found s rest) :
      RuleRead last channels name p.line found ((.tokenName name, p) :: (options ++ (.colon, q) :: s)) rest

end Grammar

/-- Whether symbols begin with the rule. What becomes of its texts is written after each of its alternatives. -/
def Rule.Read (r : Rule) (last : Position) (channels : List String) (s rest : List Placed) : Prop :=
  ∃ found, RuleRead last channels r.name r.line found s rest ∧ r.alternatives = found.map Prod.fst ∧
    ∀ a ∈ found, a.2 = r.action

namespace Grammar

variable {last : Position} {channels : List String} {isFragment : Bool}

theorem ruleOptions_eq_ok_iff {s rest : List Placed} {q : Position} :
    ruleOptions last s = .ok ((.colon, q) :: rest) ↔
      ∃ options, s = options ++ (.colon, q) :: rest ∧ OptionsWritten (options.map Prod.fst) := by
  constructor
  · intro h
    unfold ruleOptions at h
    split at h
    · obtain ⟨⟨body, t⟩, hblock, rfl⟩ := map_eq_ok_iff.mp h
      obtain ⟨p', rfl⟩ := block_eq_ok_iff.mp hblock
      exact ⟨[_, _], rfl, .block body⟩
    · cases h
      exact ⟨[], rfl, .none⟩
  · rintro ⟨options, rfl, hwritten⟩
    generalize hw : options.map Prod.fst = w at hwritten
    cases hwritten with
    | none =>
      obtain rfl := List.map_eq_nil_iff.mp hw
      rfl
    | block body =>
      obtain ⟨p₁, t₁, rfl, h₁⟩ := exists_cons_of_map hw
      obtain ⟨p₂, rfl⟩ := exists_singleton_of_map h₁
      rfl

theorem RuleRead.exists_cons {name : String} {line : Nat} {found : List (List Element × Action)} {s rest : List Placed}
    (h : RuleRead last channels name line found s rest) : ∃ p t, s = (.tokenName name, p) :: t := by
  cases h with
  | intro => exact ⟨_, _, rfl⟩

theorem RuleRead.ne_nil {name : String} {line : Nat} {found : List (List Element × Action)} {s rest : List Placed}
    (h : RuleRead last channels name line found s rest) : found ≠ [] := by
  cases h with
  | intro _ h => exact h.ne_nil

/-- What is read of a rule decides whether it is one. -/
theorem rule_of_read {name : String} {line : Nat} {found : List (List Element × Action)} {s rest : List Placed}
    (h : RuleRead last channels name line found s rest) (isFragment : Bool) (notices : List Notice) :
    (rule last channels isFragment notices s).1 = ruleOf last isFragment name line found rest := by
  cases h with
  | @intro _ p q options t _ hoptions halternatives =>
    have hread := alternatives_of_read halternatives [] notices
    unfold rule
    dsimp only
    rw [ruleOptions_eq_ok_iff.mpr ⟨options, rfl, hoptions⟩]
    simp only [Except.bind]
    rw [expect_eq_ok_iff.mpr ⟨q, rfl⟩]
    dsimp only
    split
    · next h => rw [h] at hread; cases hread
    · next h => rw [h] at hread; cases hread; rfl

/-- A rule is made of alternatives that agree on what becomes of their texts. -/
theorem ruleOf_eq_ok_iff {name : String} {line : Nat} {found : List (List Element × Action)} {r : Rule}
    {s rest : List Placed} (hne : found ≠ []) : ruleOf last isFragment name line found s = .ok (r, rest) ↔
      s = rest ∧ r = ⟨name, isFragment, found.map Prod.fst, r.action, line⟩ ∧ ∀ a ∈ found, a.2 = r.action := by
  obtain ⟨⟨es, action⟩, others, rfl⟩ := List.exists_cons_of_ne_nil hne
  simp only [ruleOf, List.all_eq_true, decide_eq_true_eq]
  constructor
  · intro h
    split at h
    · next hall =>
      cases h
      exact ⟨rfl, rfl, hall⟩
    · cases h
  · rintro ⟨rfl, hr, hall⟩
    obtain rfl : action = r.action := hall _ List.mem_cons_self
    rw [if_pos hall, ← hr]

/-- Alternatives that disagree make no rule. -/
theorem ruleOf_eq_error {name : String} {line : Nat} {found : List (List Element × Action)} {rest : List Placed}
    {a b : List Element × Action} (ha : a ∈ found) (hb : b ∈ found) (hne : a.2 ≠ b.2) :
    ruleOf last isFragment name line found rest =
      .error (faultAt last rest (.unsupported "different lexer commands per alternative")) := by
  obtain ⟨⟨es, action⟩, others, rfl⟩ := List.exists_cons_of_ne_nil (List.ne_nil_of_mem ha)
  have hall : ¬∀ a ∈ (es, action) :: others, a.2 = action := fun hall => hne ((hall a ha).trans (hall b hb).symm)
  simp only [ruleOf, List.all_eq_true, decide_eq_true_eq]
  rw [if_neg hall]

theorem rule_eq_ok_iff {notices : List Notice} {r : Rule} {s rest : List Placed} :
    (rule last channels isFragment notices s).1 = .ok (r, rest) ↔ r.isFragment = isFragment ∧ r.Read last channels s rest := by
  constructor
  · intro h
    unfold rule at h
    split at h
    · next name p t =>
      split at h
      · cases h
      · next u hu =>
        obtain ⟨v, hoptions, hcolon⟩ : ∃ v, ruleOptions last t = .ok v ∧ expect last .colon "':' after rule name" v = .ok u := by
          cases hoptions : ruleOptions last t with
          | error e => rw [hoptions] at hu; cases hu
          | ok v => rw [hoptions] at hu; exact ⟨v, rfl, hu⟩
        obtain ⟨q, rfl⟩ := expect_eq_ok_iff.mp hcolon
        obtain ⟨options, rfl, hwritten⟩ := ruleOptions_eq_ok_iff.mp hoptions
        split at h
        · cases h
        · next found rest' notices' hfound =>
          obtain ⟨found, hread, rfl⟩ := exists_alternativesRead (congrArg Prod.fst hfound)
          obtain ⟨rfl, hr, hactions⟩ := (ruleOf_eq_ok_iff hread.ne_nil).mp h
          rw [hr]
          exact ⟨rfl, found, .intro hwritten hread, rfl, hactions⟩
    · cases h
  · rintro ⟨rfl, found, hread, halternatives, hactions⟩
    rw [rule_of_read hread, ruleOf_eq_ok_iff hread.ne_nil, ← halternatives]
    exact ⟨rfl, rfl, hactions⟩

end Grammar

end Lexeme
