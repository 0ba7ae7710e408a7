import Lexeme.Grammar.Rule
import Lexeme.Log.Basic

/-!
# Grammars from their sources

A source is a header, then declarations up to its end: options, which have no effect, names of tokens and channels,
named actions, which have none either, and rules. In a grammar that also describes a parser, only the literals of the
parser rules are of interest.

`Grammar.parse` gives the grammar of a source, and `Grammar.load` also reports what was read over.
-/

namespace Lexeme.Grammar

variable (last : Position)

/-! ## Names and actions -/

/-- Whether a text can name a token or a channel. -/
def isDeclarable (name : List Char) : Bool :=
  name.head?.any Text.isAlphabetic && name.all isNameChar

/-- Cuts a text at its commas. -/
def commaSeparated (s : List Char) : List (List Char) :=
  s.splitOn ','

/-- The names in a block, with commas between them. -/
def names (body : String) (rest : List Placed) : Except Error (List String) :=
  (((commaSeparated body.toList).map Text.trim).filter (· ≠ [])).mapM fun name =>
    if isDeclarable name then .ok (String.ofList name)
    else .error (faultAt last rest (.invalidName (String.ofList name)))

/-- Takes a block of names that belongs to `owner`. -/
def nameBlock (owner : String) (s : List Placed) : Taken (List String) :=
  match block last owner s with
  | .error e => .error e
  | .ok (body, rest) => (names last body rest).map (·, rest)

/-- Takes the name of an action, of one part or of two. -/
def actionName (s : List Placed) : Taken String :=
  match identifier last s with
  | .error e => .error e
  | .ok (scope, (.doubleColon, _) :: rest) => (identifier last rest).mapValue fun name => s!"{scope}::{name}"
  | .ok (name, rest) => .ok (name, rest)

/-- Takes a named action after its sign. -/
def namedAction (s : List Placed) : Taken String :=
  match actionName last s with
  | .error e => .error e
  | .ok (name, rest) => (block last s!"@{name}" rest).mapValue fun _ => name

/-! ## Parser rules -/

/-- Adds the literals of a parser rule, up to its semicolon, to those before. They stand last first. -/
def parserRule (name : String) (literals : List String) : List Placed → Taken (List String)
  | [] => .error (faultAt last [] (.missingSemicolon name))
  | (.semicolon, _) :: rest => .ok (literals, rest)
  | (.literal text, _) :: rest =>
    if text.isEmpty ∨ text ∈ literals then parserRule name literals rest
    else parserRule name (text :: literals) rest
  | _ :: rest => parserRule name literals rest

/-- Takes a handler of exceptions, which may have an argument in brackets. -/
def handler (name : String) : List Placed → Taken String
  | (.set _, _) :: rest => block last name rest
  | s => block last name s

/-! ## Declarations -/

/-- Adds a rule to a grammar whose rules stand last first. -/
def addRule (g : Grammar) : Noticed Rule → Noticed Grammar
  | (.error e, notices) => (.error e, notices)
  | (.ok (rule, rest), notices) =>
    if g.rules.any (·.name = rule.name) then
      (.error ((Fault.redefinedRule rule.name).error ⟨0, rule.line, 1⟩), notices)
    else (.ok ({ g with rules := rule :: g.rules }, rest), notices)

/-- Reads on in a declaration that begins with the lowercase word `word`, at position `p`. -/
def wordDeclaration (onlyLexer : Bool) (g : Grammar) (notices : List Notice) (word : String) (p : Position)
    (rest : List Placed) : Noticed Grammar :=
  if word = "options" then ((block last word rest).mapValue fun _ => g, notices)
  else if word = "tokens" then
    ((nameBlock last word rest).mapValue fun names => { g with declaredTokens := g.declaredTokens ++ names }, notices)
  else if word = "channels" then
    ((nameBlock last word rest).mapValue fun names => { g with channels := g.channels ++ names }, notices)
  else if word = "import" then (.error (Fault.error p (.unsupported "grammar imports")), notices)
  else if word = "mode" then (.error (Fault.error p (.unsupported "lexer modes")), notices)
  else if word = "fragment" then addRule g (rule last g.channels true notices rest)
  else if onlyLexer then (.error (Fault.error p .ruleOfParser), notices)
  else if word = "catch" ∨ word = "finally" then ((handler last word rest).mapValue fun _ => g, notices)
  else ((parserRule last word g.parserLiterals rest).mapValue fun found => { g with parserLiterals := found }, notices)

/-- Reads on in a declaration that begins with `symbol`, at position `p`. The rules and the parser literals of `g`
stand last first. -/
def declaration (onlyLexer : Bool) (g : Grammar) (notices : List Notice) (symbol : Symbol) (p : Position)
    (rest : List Placed) : Noticed Grammar :=
  match symbol with
  | .ruleName word => wordDeclaration last onlyLexer g notices word p rest
  | .tokenName _ => addRule g (rule last g.channels false notices ((symbol, p) :: rest))
  | .at =>
    match namedAction last rest with
    | .error e => (.error e, notices)
    | .ok (name, rest) => (.ok (g, rest), .namedAction name :: notices)
  | _ => (.error (Fault.error p .expectedRule), notices)

theorem nameBlock_length {owner : String} {s rest : List Placed} {found : List String}
    (h : nameBlock last owner s = .ok (found, rest)) : rest.length < s.length := by
  unfold nameBlock at h
  split at h
  · cases h
  · next body t hblock =>
    have := block_length last hblock
    cases hnames : names last body t with
    | error => rw [hnames] at h; cases h
    | ok =>
      rw [hnames] at h
      have hrest : t = rest := congrArg Prod.snd (Except.ok.inj h)
      rw [← hrest]
      assumption

theorem actionName_length {s rest : List Placed} {name : String} (h : actionName last s = .ok (name, rest)) :
    rest.length < s.length := by
  unfold actionName at h
  split at h
  · cases h
  · next scope p t hscope =>
    have := identifier_length last hscope
    obtain ⟨name, hname, -⟩ := Taken.mapValue_eq_ok h
    have := identifier_length last hname
    simp only [List.length_cons] at *
    omega
  · next hname =>
    cases h
    exact identifier_length last hname

theorem namedAction_length {s rest : List Placed} {name : String} (h : namedAction last s = .ok (name, rest)) :
    rest.length < s.length := by
  unfold namedAction at h
  split at h
  · cases h
  · next name t hname =>
    have := actionName_length last hname
    obtain ⟨body, hblock, -⟩ := Taken.mapValue_eq_ok h
    have := block_length last hblock
    omega

theorem parserRule_length {name : String} {literals found : List String} {s rest : List Placed}
    (h : parserRule last name literals s = .ok (found, rest)) : rest.length < s.length := by
  fun_induction parserRule last name literals s <;> simp_all <;> omega

theorem handler_length {name body : String} {s rest : List Placed} (h : handler last name s = .ok (body, rest)) :
    rest.length < s.length := by
  unfold handler at h
  split at h
  · have := block_length last h
    simp only [List.length_cons]
    omega
  · exact block_length last h

theorem addRule_length {g found : Grammar} {read : Noticed Rule} {rest : List Placed}
    (h : (addRule g read).1 = .ok (found, rest)) : ∃ rule, read.1 = .ok (rule, rest) := by
  unfold addRule at h
  split at h
  · cases h
  · split at h
    · cases h
    · cases h; exact ⟨_, rfl⟩

theorem wordDeclaration_length_le {onlyLexer : Bool} {g found : Grammar} {notices : List Notice} {word : String}
    {p : Position} {s rest : List Placed}
    (h : (wordDeclaration last onlyLexer g notices word p s).1 = .ok (found, rest)) : rest.length ≤ s.length := by
  have read {α : Type} {f : α → Grammar} {r : Taken α} (h : (r.mapValue f, notices).1 = .ok (found, rest))
      (hr : ∀ a, r = .ok (a, rest) → rest.length < s.length) : rest.length ≤ s.length := by
    obtain ⟨a, ha, -⟩ := Taken.mapValue_eq_ok h
    exact Nat.le_of_lt (hr a ha)
  unfold wordDeclaration at h
  split at h
  · exact read h fun a => block_length last
  split at h
  · exact read h fun a => nameBlock_length last
  split at h
  · exact read h fun a => nameBlock_length last
  split at h
  · cases h
  split at h
  · cases h
  split at h
  · obtain ⟨rule, hrule⟩ := addRule_length h
    exact Nat.le_of_lt (rule_length last hrule)
  split at h
  · cases h
  split at h
  · exact read h fun a => handler_length last
  · exact read h fun a => parserRule_length last

theorem declaration_length_le {onlyLexer : Bool} {g found : Grammar} {notices : List Notice} {symbol : Symbol}
    {p : Position} {s rest : List Placed}
    (h : (declaration last onlyLexer g notices symbol p s).1 = .ok (found, rest)) : rest.length ≤ s.length := by
  unfold declaration at h
  split at h
  · exact wordDeclaration_length_le last h
  · obtain ⟨rule, hrule⟩ := addRule_length h
    have := rule_length last hrule
    simp only [List.length_cons] at this
    omega
  · split at h
    · cases h
    · next hname =>
      cases h
      exact Nat.le_of_lt (namedAction_length last hname)
  · cases h

/-- Reads declarations up to the end of the source. -/
def declarations (onlyLexer : Bool) (g : Grammar) (notices : List Notice) (s : List Placed) :
    Except Error Grammar × List Notice :=
  match s with
  | [] => (.ok { g with parserLiterals := g.parserLiterals.reverse, rules := g.rules.reverse }, notices)
  | (symbol, p) :: rest =>
    match _ : declaration last onlyLexer g notices symbol p rest with
    | (.ok (g, rest), notices) => declarations onlyLexer g notices rest
    | (.error e, notices) => (.error e, notices)
termination_by s.length
decreasing_by
  have := declaration_length_le last (congrArg Prod.fst ‹declaration _ _ _ _ _ _ _ = _›)
  simp only [List.length_cons]
  omega

/-! ## Sources -/

/-- Takes the word that a grammar begins with, and its name. -/
def title : List Placed → Taken String
  | (.ruleName "grammar", _) :: rest =>
    match identifier last rest with
    | .error e => .error e
    | .ok (name, rest) => (expect last .semicolon "';' after grammar name" rest).map (name, ·)
  | s => .error (faultAt last s .expectedDeclaration)

/-- Takes the header: the name of the grammar, and whether it describes only a lexer. -/
def header : List Placed → Taken (String × Bool)
  | (.ruleName "lexer", _) :: rest => (title last rest).mapValue (·, true)
  | (.ruleName "parser", p) :: _ =>
    .error (Fault.error p (.unsupported "parser grammar (no lexer rules)"))
  | s => (title last s).mapValue (·, false)

/-- The grammar that symbols make up, and the notices, last first. -/
def ofSymbols (s : List Placed) : Except Error Grammar × List Notice :=
  let last := s.getLast?.elim .start Prod.snd
  match header last s with
  | .error e => (.error e, [])
  | .ok ((name, onlyLexer), rest) => declarations last onlyLexer ⟨name, [], [], [], []⟩ [] rest

/-- The grammar of a source, and the notices, last first. -/
def read (source : String) : Except Error Grammar × List Notice :=
  match symbols source with
  | .error e => (.error e, [])
  | .ok s => ofSymbols s

/-- The grammar of a source. -/
def parse (source : String) : Except Error Grammar := (read source).1

/-- Reports a notice. -/
def Notice.report : Notice → Logged Unit
  | embeddedAction rule => Log.warning "Ignoring embedded action" [("rule", rule)]
  | namedAction name => Log.warning "Ignoring grammar action" [("action", name)]

/-- Gives the grammar of a source and reports what was read over. -/
def load (source : String) : Logged (Except Error Grammar) := do
  let (result, notices) := read source
  notices.reverse.forM Notice.report
  return result

end Lexeme.Grammar
