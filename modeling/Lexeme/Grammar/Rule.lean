import Lexeme.Grammar.Body
import Lexeme.Token

/-!
# Rules from their symbols

A rule is a name, a colon, and alternatives up to a semicolon. Each alternative may end with commands, which say what
becomes of the texts that the rule matches; all alternatives of a rule have to say the same.
-/

namespace Lexeme.Grammar

variable (last : Position)

/-! ## Commands -/

/-- The channel of a name, in a rule, when `channels` have been declared before it. -/
def channelOf (rule : String) (channels : List String) (name : String) : Except Error Nat :=
  if name = "HIDDEN" then .ok hiddenChannel
  else if name = "DEFAULT_TOKEN_CHANNEL" then .ok defaultChannel
  else
    match channels.idxOf? name with
    | some index => .ok (firstChannel + index)
    | none => .error (.unknownChannel rule name)

/-- Takes a channel, by number or by name. -/
def channel (rule : String) (channels : List String) : List Placed → Taken Nat
  | (.integer number, _) :: rest => .ok (number, rest)
  | (.tokenName name, _) :: rest => (channelOf rule channels name).map (·, rest)
  | (.ruleName name, _) :: rest => (channelOf rule channels name).map (·, rest)
  | s => .error (faultAt last s .expectedChannel)

/-- Takes a channel in parentheses. -/
def channelArgument (rule : String) (channels : List String) (s : List Placed) : Taken Nat :=
  match expect last .leftParen "'(' after channel" s with
  | .error e => .error e
  | .ok s =>
    match channel last rule channels s with
    | .error e => .error e
    | .ok (number, s) => (expect last .rightParen "')' after channel" s).map (number, ·)

/-- Commands of the notation that have no meaning here. -/
def unsupportedCommands : List String := ["more", "type", "mode", "pushMode", "popMode"]

/-- Takes a command; gives what becomes of the rule's texts, which was `action` before. What is to be skipped is
not put on a channel any more. -/
def command (rule : String) (channels : List String) (action : Action) (s : List Placed) : Taken Action :=
  match identifier last s with
  | .error e => .error e
  | .ok (name, rest) =>
    if name = "skip" then .ok (.skip, rest)
    else if name = "channel" then
      (channelArgument last rule channels rest).mapValue fun number =>
        if action = .skip then .skip else .emit number
    else if name ∈ unsupportedCommands then
      .error (faultAt last rest (.unsupported s!"lexer command '{name}'"))
    else .error (faultAt last rest (.unknownCommand name))

theorem identifier_length {s rest : List Placed} {name : String} (h : identifier last s = .ok (name, rest)) :
    rest.length < s.length := by
  fun_cases identifier last s <;> simp_all [identifier]

theorem block_length {owner body : String} {s rest : List Placed} (h : block last owner s = .ok (body, rest)) :
    rest.length < s.length := by
  fun_cases block last owner s <;> simp_all [block]

theorem expect_length {symbol : Symbol} {what : String} {s rest : List Placed}
    (h : expect last symbol what s = .ok rest) : rest.length < s.length := by
  fun_cases expect last symbol what s <;> simp_all [expect]

theorem channel_length {rule : String} {channels : List String} {s rest : List Placed} {number : Nat}
    (h : channel last rule channels s = .ok (number, rest)) : rest.length < s.length := by
  have named {name : String} {t : List Placed} (h : (channelOf rule channels name).map (·, t) = .ok (number, rest)) :
      t = rest := by
    cases hof : channelOf rule channels name with
    | error => rw [hof] at h; cases h
    | ok => rw [hof] at h; exact congrArg Prod.snd (Except.ok.inj h)
  fun_cases channel last rule channels s
  · cases h; simp
  · rw [← named h]; simp
  · rw [← named h]; simp
  · simp_all [channel]

theorem channelArgument_length {rule : String} {channels : List String} {s rest : List Placed} {number : Nat}
    (h : channelArgument last rule channels s = .ok (number, rest)) : rest.length < s.length := by
  unfold channelArgument at h
  split at h
  · cases h
  · next hopen =>
    split at h
    · cases h
    · next number t hchannel =>
      have := expect_length last hopen
      have := channel_length last hchannel
      cases hclose : expect last .rightParen "')' after channel" t with
      | error => rw [hclose] at h; cases h
      | ok u =>
        have := expect_length last hclose
        rw [hclose] at h
        have hrest : u = rest := congrArg Prod.snd (Except.ok.inj h)
        rw [← hrest]
        omega

theorem command_length {rule : String} {channels : List String} {action found : Action} {s rest : List Placed}
    (h : command last rule channels action s = .ok (found, rest)) : rest.length < s.length := by
  unfold command at h
  split at h
  · cases h
  · next name t hname =>
    have := identifier_length last hname
    split at h
    · cases h; assumption
    · split at h
      · obtain ⟨number, hnumber, -⟩ := Taken.mapValue_eq_ok h
        have := channelArgument_length last hnumber
        omega
      · split at h <;> cases h

/-- Takes commands with commas between them. -/
def commands (rule : String) (channels : List String) (action : Action) (s : List Placed) : Taken Action :=
  match _ : command last rule channels action s with
  | .error e => .error e
  | .ok (action, (.comma, _) :: rest) => commands rule channels action rest
  | .ok (action, rest) => .ok (action, rest)
termination_by s.length
decreasing_by
  have := command_length last ‹command _ _ _ _ _ = _›
  simp only [List.length_cons] at this
  omega

/-- Takes the commands after an arrow, if there is one. -/
def actionOf (rule : String) (channels : List String) : List Placed → Taken Action
  | (.arrow, _) :: rest => commands last rule channels (.emit defaultChannel) rest
  | s => .ok (.emit defaultChannel, s)

theorem commands_length {rule : String} {channels : List String} {action found : Action} {s rest : List Placed}
    (h : commands last rule channels action s = .ok (found, rest)) : rest.length < s.length := by
  fun_induction commands last rule channels action s with
  | case1 => cases h
  | case2 action s found p t ht ih =>
    have := command_length last ht
    have := ih h
    simp only [List.length_cons] at *
    omega
  | case3 action s found t _ ht =>
    have := command_length last ht
    cases h
    assumption

theorem actionOf_length_le {rule : String} {channels : List String} {action : Action} {s rest : List Placed}
    (h : actionOf last rule channels s = .ok (action, rest)) : rest.length ≤ s.length := by
  unfold actionOf at h
  split at h
  · have := commands_length last h
    simp only [List.length_cons]
    omega
  · cases h; simp

/-! ## Rules -/

theorem sequence_length_le {rule : String} {frames : List Frame} {tildes : Nat} {current es : List Element}
    {notices : List Notice} {s rest : List Placed}
    (h : (sequence last rule frames tildes current notices s).1 = .ok (es, rest)) : rest.length ≤ s.length := by
  fun_induction sequence last rule frames tildes current notices s
  all_goals grind [→ leaf?_length, → completed_length_le]

/-- Takes the alternatives of a rule, up to the semicolon, each with what becomes of its texts. `done` holds those
before, last first. -/
def alternatives (rule : String) (channels : List String) (done : List (List Element × Action))
    (notices : List Notice) (s : List Placed) : Noticed (List (List Element × Action)) :=
  match _ : sequence last rule [] 0 [] notices s with
  | (.error e, notices) => (.error e, notices)
  | (.ok (es, rest), notices) =>
    match _ : actionOf last rule channels rest with
    | .error e => (.error e, notices)
    | .ok (action, (.bar, _) :: rest) => alternatives rule channels ((es, action) :: done) notices rest
    | .ok (action, (.semicolon, _) :: rest) => (.ok (((es, action) :: done).reverse, rest), notices)
    | .ok (_, rest) => (.error (faultAt last rest (.unfinishedRule rule)), notices)
termination_by s.length
decreasing_by
  rename_i hsequence hrest _
  have := sequence_length_le last (congrArg Prod.fst hsequence)
  have := actionOf_length_le last ‹actionOf _ _ _ _ = _›
  simp only [List.length_cons] at *
  omega

theorem alternatives_length_le {rule : String} {channels : List String} {done found : List (List Element × Action)}
    {notices : List Notice} {s rest : List Placed}
    (h : (alternatives last rule channels done notices s).1 = .ok (found, rest)) : rest.length ≤ s.length := by
  fun_induction alternatives last rule channels done notices s
  all_goals grind [→ sequence_length_le, → actionOf_length_le]

/-- Takes the options of a rule, if there are any. -/
def ruleOptions : List Placed → Except Error (List Placed)
  | (.ruleName "options", _) :: rest => (block last "options" rest).map Prod.snd
  | s => .ok s

/-- The rule of a name with given alternatives, which must agree on what becomes of their texts. -/
def ruleOf (isFragment : Bool) (name : String) (line : Nat) (alternatives : List (List Element × Action))
    (rest : List Placed) : Taken Rule :=
  match alternatives with
  | [] => .error (faultAt last rest (.unfinishedRule name))
  | (_, action) :: _ =>
    if alternatives.all (·.2 = action) then .ok (⟨name, isFragment, alternatives.map Prod.fst, action, line⟩, rest)
    else .error (faultAt last rest (.unsupported "different lexer commands per alternative"))

/-- Takes a rule, from its name to its semicolon. -/
def rule (channels : List String) (isFragment : Bool) (notices : List Notice) : List Placed → Noticed Rule
  | (.tokenName name, p) :: rest =>
    match (ruleOptions last rest).bind (expect last .colon "':' after rule name") with
    | .error e => (.error e, notices)
    | .ok rest =>
      match alternatives last name channels [] notices rest with
      | (.error e, notices) => (.error e, notices)
      | (.ok (found, rest), notices) => (ruleOf last isFragment name p.line found rest, notices)
  | s => (.error (faultAt last s .lowercaseRule), notices)

theorem ruleOptions_length_le {s rest : List Placed} (h : ruleOptions last s = .ok rest) :
    rest.length ≤ s.length := by
  unfold ruleOptions at h
  split at h
  · next t =>
    cases hblock : block last "options" t with
    | error => rw [hblock] at h; cases h
    | ok r =>
      have := block_length last hblock
      rw [hblock] at h
      have hrest : r.2 = rest := Except.ok.inj h
      subst hrest
      simp only [List.length_cons]
      omega
  · cases h; simp

theorem rule_length {channels : List String} {isFragment : Bool} {notices : List Notice} {s rest : List Placed}
    {found : Rule} (h : (rule last channels isFragment notices s).1 = .ok (found, rest)) : rest.length < s.length := by
  unfold rule at h
  split at h
  · next name p t =>
    split at h
    · cases h
    · next u hu =>
      have hcolon : u.length ≤ t.length := by
        cases hoptions : ruleOptions last t with
        | error => rw [hoptions] at hu; cases hu
        | ok v =>
          rw [hoptions] at hu
          have := ruleOptions_length_le last hoptions
          have : u.length < v.length := expect_length last hu
          omega
      split at h
      · cases h
      · next found rest notices hfound =>
        have := alternatives_length_le last (congrArg Prod.fst hfound)
        unfold ruleOf at h
        split at h
        · cases h
        · split at h
          · cases h
            simp only [List.length_cons]
            omega
          · cases h
  · cases h

end Lexeme.Grammar
