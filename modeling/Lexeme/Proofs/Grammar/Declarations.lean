import Lexeme.Proofs.Grammar.Printed
import Lexeme.Proofs.Grammar.Rules
import Mathlib.Data.List.Dedup

/-!
# What the declarations of a source tell

A source is a header and declarations. Each of them tells something about the grammar (`Declares`), and the grammar consists
of what they tell, in the order in which they stand (`ofTold`). A declaration is read just if it can be written
(`declaration_of_declares`, `exists_declares`), and so are the declarations of a whole source (`declarations_of_told`,
`exists_declarations`); so the accepted sources are those whose declarations reach to the end and tell of no two rules of
one name (`parse_eq_ok_iff`). It follows that parsed grammars are well formed (`parse_wellFormed`).
-/

namespace Lexeme

open Grammar

namespace Grammar

variable {last : Position}

/-! ## Literals of parser rules -/

/-- The text of a symbol that is a literal. -/
def Symbol.literal? : Symbol → Option String
  | .literal text => some text
  | _ => none

/-- The literals among symbols, as often as they occur. -/
def literalsOf (s : List Placed) : List String := s.filterMap (·.1.literal?)

/-- Texts other than the empty one, each where it occurs first. -/
def firstUses (texts : List String) : List String := (texts.filter (· ≠ "")).reverse.dedup.reverse

theorem mem_firstUses_iff {texts : List String} {text : String} : text ∈ firstUses texts ↔ text ∈ texts ∧ text ≠ "" := by
  simp [firstUses]

theorem nodup_firstUses (texts : List String) : (firstUses texts).Nodup :=
  List.nodup_reverse.mpr (List.nodup_dedup _)

theorem firstUses_concat (texts : List String) (text : String) : firstUses (texts ++ [text]) =
    if text = "" ∨ text ∈ firstUses texts then firstUses texts else firstUses texts ++ [text] := by
  by_cases hempty : text = ""
  · simp [firstUses, hempty]
  · by_cases hmem : text ∈ texts
    · rw [if_pos (.inr (mem_firstUses_iff.mpr ⟨hmem, hempty⟩))]
      simp [firstUses, hempty, hmem]
    · rw [if_neg (by simp [mem_firstUses_iff, hempty, hmem])]
      simp [firstUses, hempty, hmem]

/-- A symbol other than the semicolon adds its literal to those that were used before. -/
theorem parserRule_cons (name : String) (used : List String) {x : Placed} (hx : x.1 ≠ .semicolon) (s : List Placed) :
    parserRule last name (firstUses used).reverse (x :: s) =
      parserRule last name (firstUses (used ++ literalsOf [x])).reverse s := by
  obtain ⟨symbol, p⟩ := x
  cases symbol with
  | semicolon => exact absurd rfl hx
  | literal text =>
    have hused : literalsOf [(Symbol.literal text, p)] = [text] := rfl
    simp only [parserRule, hused, firstUses_concat, String.isEmpty_iff, List.mem_reverse]
    split
    · rfl
    · rw [List.reverse_concat]
  | _ => simp [parserRule, literalsOf, Symbol.literal?]

/-- A parser rule uses the literals up to its semicolon, each of which counts once. -/
theorem parserRule_eq_ok_iff {name : String} {used found : List String} {s rest : List Placed} :
    parserRule last name (firstUses used).reverse s = .ok (found, rest) ↔ ∃ p q, s = p ++ (.semicolon, q) :: rest ∧
      (∀ x ∈ p, x.1 ≠ .semicolon) ∧ found = (firstUses (used ++ literalsOf p)).reverse := by
  have hcons (x : Placed) (p : List Placed) : literalsOf (x :: p) = literalsOf [x] ++ literalsOf p :=
    List.filterMap_append (l := [x])
  induction s generalizing used with
  | nil => exact iff_of_false nofun (by simp)
  | cons x s ih =>
    by_cases hx : x.1 = .semicolon
    · obtain ⟨symbol, q⟩ := x
      obtain rfl : symbol = .semicolon := hx
      constructor
      · intro h
        cases h
        exact ⟨[], q, rfl, by simp, by simp [literalsOf]⟩
      · rintro ⟨p, q', heq, hp, rfl⟩
        cases p with
        | nil =>
          cases heq
          simp [parserRule, literalsOf]
        | cons y p =>
          cases heq
          exact absurd rfl (hp _ List.mem_cons_self)
    · rw [parserRule_cons name used hx]
      refine (@ih (used ++ literalsOf [x])).trans ⟨?_, ?_⟩
      · rintro ⟨p, q, rfl, hp, rfl⟩
        exact ⟨x :: p, q, rfl, List.forall_mem_cons.mpr ⟨hx, hp⟩, by rw [hcons x p, List.append_assoc]⟩
      · rintro ⟨p, q, heq, hp, rfl⟩
        cases p with
        | nil =>
          cases heq
          exact absurd rfl hx
        | cons y p =>
          cases heq
          exact ⟨p, q, rfl, (List.forall_mem_cons.mp hp).2, by rw [hcons x p, List.append_assoc]⟩

/-! ## Declarations -/

/-- What a declaration tells about a grammar. -/
inductive Told where
  | nothing
  | tokens (names : List String)
  | channels (names : List String)
  | literals (texts : List String)
  | rule (r : Rule)

namespace Told

def declaredTokens : Told → List String
  | .tokens names => names
  | _ => []

def declaredChannels : Told → List String
  | .channels names => names
  | _ => []

def usedLiterals : Told → List String
  | .literals texts => texts
  | _ => []

def rule? : Told → Option Rule
  | .rule r => some r
  | _ => none

end Told

/-- The grammar of a name about which declarations tell: everything stands in the order in which it is told. -/
def ofTold (name : String) (told : List Told) : Grammar where
  name := name
  declaredTokens := told.flatMap Told.declaredTokens
  channels := told.flatMap Told.declaredChannels
  parserLiterals := firstUses (told.flatMap Told.usedLiterals)
  rules := told.filterMap Told.rule?

/-- The ways to write the name of an action. -/
inductive ActionNameWritten : List Symbol → Prop
  | one {symbol : Symbol} {word : String} (h : symbol.IsWord word) : ActionNameWritten [symbol]
  | pair {scope symbol : Symbol} {word word' : String} (hscope : scope.IsWord word) (h : symbol.IsWord word') :
      ActionNameWritten [scope, .doubleColon, symbol]

/-- The ways to write the argument of a handler, or none. -/
inductive HandlerArgumentWritten : List Symbol → Prop
  | none : HandlerArgumentWritten []
  | set (items : List SetItem) : HandlerArgumentWritten [.set items]

/-- The words with which declarations begin that are not rules of the parser. -/
def declarationWords : List String :=
  ["options", "tokens", "channels", "import", "mode", "fragment", "catch", "finally"]

/-- What the declaration tells that symbols begin with, and the symbols after it, when `channels` have been declared
before. -/
inductive Declares (last : Position) (onlyLexer : Bool) (channels : List String) :
    Told → List Placed → List Placed → Prop
  | options {body : String} {p q : Position} {rest : List Placed} :
      Declares last onlyLexer channels .nothing ((.ruleName "options", p) :: (.action body, q) :: rest) rest
  | tokens {body : String} {found : List String} {p q : Position} {rest : List Placed}
      (h : names last body rest = .ok found) :
      Declares last onlyLexer channels (.tokens found) ((.ruleName "tokens", p) :: (.action body, q) :: rest) rest
  | channels {body : String} {found : List String} {p q : Position} {rest : List Placed}
      (h : names last body rest = .ok found) :
      Declares last onlyLexer channels (.channels found) ((.ruleName "channels", p) :: (.action body, q) :: rest) rest
  | action {name rest : List Placed} {body : String} {p q : Position} (hname : ActionNameWritten (name.map Prod.fst)) :
      Declares last onlyLexer channels .nothing ((.at, p) :: (name ++ (.action body, q) :: rest)) rest
  | handler {word body : String} {argument rest : List Placed} {p q : Position} (hparser : onlyLexer = false)
      (hword : word = "catch" ∨ word = "finally") (hargument : HandlerArgumentWritten (argument.map Prod.fst)) :
      Declares last onlyLexer channels .nothing ((.ruleName word, p) :: (argument ++ (.action body, q) :: rest)) rest
  | parserRule {word : String} {s rest : List Placed} {p q : Position} (hparser : onlyLexer = false)
      (hword : word ∉ declarationWords) (hs : ∀ x ∈ s, x.1 ≠ .semicolon) :
      Declares last onlyLexer channels (.literals (literalsOf s)) ((.ruleName word, p) :: (s ++ (.semicolon, q) :: rest)) rest
  | rule {r : Rule} {s rest : List Placed} (hfragment : r.isFragment = false) (h : r.Read last channels s rest) :
      Declares last onlyLexer channels (.rule r) s rest
  | fragment {r : Rule} {s rest : List Placed} {p : Position} (hfragment : r.isFragment = true)
      (h : r.Read last channels s rest) :
      Declares last onlyLexer channels (.rule r) ((.ruleName "fragment", p) :: s) rest

/-- What the declarations tell that symbols begin with, and the symbols after them. -/
inductive Declarations (last : Position) (onlyLexer : Bool) :
    List String → List Told → List Placed → List Placed → Prop
  | nil {channels : List String} {s : List Placed} : Declarations last onlyLexer channels [] s s
  | cons {channels : List String} {t : Told} {told : List Told} {s s' rest : List Placed}
      (h : Declares last onlyLexer channels t s s')
      (hs : Declarations last onlyLexer (channels ++ t.declaredChannels) told s' rest) :
      Declarations last onlyLexer channels (t :: told) s rest

/-- The grammar while declarations are read: rules and literals stand last first. -/
def soFar (name : String) (told : List Told) : Grammar :=
  { ofTold name told with
    parserLiterals := (ofTold name told).parserLiterals.reverse
    rules := (ofTold name told).rules.reverse }

theorem nameBlock_eq_ok_iff {owner : String} {found : List String} {s rest : List Placed} :
    nameBlock last owner s = .ok (found, rest) ↔
      ∃ body p, s = (.action body, p) :: rest ∧ names last body rest = .ok found := by
  constructor
  · intro h
    unfold nameBlock at h
    split at h
    · cases h
    · next body t hblock =>
      obtain ⟨p, rfl⟩ := block_eq_ok_iff.mp hblock
      obtain ⟨_, hnames, heq⟩ := map_eq_ok_iff.mp h
      cases heq
      exact ⟨body, p, rfl, hnames⟩
  · rintro ⟨body, p, rfl, hnames⟩
    unfold nameBlock block
    dsimp only
    rw [hnames]
    rfl

theorem handler_eq_ok_iff {word body : String} {s rest : List Placed} :
    handler last word s = .ok (body, rest) ↔ ∃ argument p, s = argument ++ (.action body, p) :: rest ∧
      HandlerArgumentWritten (argument.map Prod.fst) := by
  constructor
  · intro h
    unfold handler at h
    split at h
    · obtain ⟨p, rfl⟩ := block_eq_ok_iff.mp h
      exact ⟨[_], p, rfl, .set _⟩
    · obtain ⟨p, rfl⟩ := block_eq_ok_iff.mp h
      exact ⟨[], p, rfl, .none⟩
  · rintro ⟨argument, p, rfl, hwritten⟩
    generalize hw : argument.map Prod.fst = w at hwritten
    cases hwritten with
    | none =>
      obtain rfl := List.map_eq_nil_iff.mp hw
      rfl
    | set items =>
      obtain ⟨q, rfl⟩ := exists_singleton_of_map hw
      rfl

theorem namedAction_eq_ok_iff {s rest : List Placed} : (∃ name, namedAction last s = .ok (name, rest)) ↔
    ∃ name body p, s = name ++ (.action body, p) :: rest ∧ ActionNameWritten (name.map Prod.fst) := by
  constructor
  · rintro ⟨name, h⟩
    unfold namedAction at h
    split at h
    · cases h
    · next name' t hname =>
      obtain ⟨body, hblock, -⟩ := Taken.mapValue_eq_ok h
      obtain ⟨p, rfl⟩ := block_eq_ok_iff.mp hblock
      unfold actionName at hname
      split at hname
      · cases hname
      · next scope q t hscope =>
        obtain ⟨word, hword, -⟩ := Taken.mapValue_eq_ok hname
        obtain ⟨symbol, q₁, rfl, hfirst⟩ := identifier_eq_ok_iff.mp hscope
        obtain ⟨symbol', q₂, rfl, hsecond⟩ := identifier_eq_ok_iff.mp hword
        exact ⟨[(symbol, q₁), (.doubleColon, q), (symbol', q₂)], body, p, rfl, .pair hfirst hsecond⟩
      · next hword =>
        cases hname
        obtain ⟨symbol, q, rfl, hfirst⟩ := identifier_eq_ok_iff.mp hword
        exact ⟨[(symbol, q)], body, p, rfl, .one hfirst⟩
  · rintro ⟨name, body, p, rfl, hwritten⟩
    generalize hw : name.map Prod.fst = w at hwritten
    cases hwritten with
    | @one symbol word h =>
      obtain ⟨q, rfl⟩ := exists_singleton_of_map hw
      rcases h with rfl | rfl <;> exact ⟨_, rfl⟩
    | @pair scope symbol word word' hscope h =>
      obtain ⟨q₁, t₁, rfl, h₁⟩ := exists_cons_of_map hw
      obtain ⟨q₂, t₂, rfl, h₂⟩ := exists_cons_of_map h₁
      obtain ⟨q₃, rfl⟩ := exists_singleton_of_map h₂
      rcases hscope with rfl | rfl <;> rcases h with rfl | rfl <;> exact ⟨_, rfl⟩

theorem addRule_eq_ok_iff {g g' : Grammar} {read : Noticed Rule} {rest : List Placed} :
    (addRule g read).1 = .ok (g', rest) ↔ ∃ r, read.1 = .ok (r, rest) ∧ (∀ r' ∈ g.rules, r'.name ≠ r.name) ∧
      g' = { g with rules := r :: g.rules } := by
  obtain ⟨result, notices⟩ := read
  cases result with
  | error e => exact iff_of_false nofun (by simp)
  | ok result =>
    obtain ⟨r, t⟩ := result
    unfold addRule
    dsimp only
    split
    · next hany =>
      refine iff_of_false nofun ?_
      rintro ⟨r', heq, hnew, -⟩
      cases heq
      obtain ⟨r', hr', hname⟩ := List.any_eq_true.mp hany
      exact hnew r' hr' (of_decide_eq_true hname)
    · next hany =>
      constructor
      · intro h
        cases h
        exact ⟨r, rfl, by simpa using hany, rfl⟩
      · rintro ⟨r', heq, -, rfl⟩
        cases heq
        rfl

section Told

variable {name : String} {told : List Told} {t : Told} {onlyLexer : Bool} {notices : List Notice}

/-- Whether a declaration tells of no rule that has been told of before. -/
def Told.IsNew (t : Told) (told : List Told) : Prop :=
  ∀ r ∈ t.rule?, ∀ r' ∈ told.filterMap Told.rule?, r'.name ≠ r.name

theorem soFar_nothing : soFar name (told ++ [.nothing]) = soFar name told := by
  simp [soFar, ofTold, Told.declaredTokens, Told.declaredChannels, Told.usedLiterals, Told.rule?]

theorem soFar_tokens (found : List String) : soFar name (told ++ [.tokens found]) =
    { soFar name told with declaredTokens := (soFar name told).declaredTokens ++ found } := by
  simp [soFar, ofTold, Told.declaredTokens, Told.declaredChannels, Told.usedLiterals, Told.rule?]

theorem soFar_channels (found : List String) : soFar name (told ++ [.channels found]) =
    { soFar name told with channels := (soFar name told).channels ++ found } := by
  simp [soFar, ofTold, Told.declaredTokens, Told.declaredChannels, Told.usedLiterals, Told.rule?]

theorem soFar_literals (texts : List String) : soFar name (told ++ [.literals texts]) =
    { soFar name told with
      parserLiterals := (firstUses (told.flatMap Told.usedLiterals ++ texts)).reverse } := by
  simp [soFar, ofTold, Told.declaredTokens, Told.declaredChannels, Told.usedLiterals, Told.rule?]

theorem soFar_rule (r : Rule) : soFar name (told ++ [.rule r]) =
    { soFar name told with rules := r :: (soFar name told).rules } := by
  simp [soFar, ofTold, Told.declaredTokens, Told.declaredChannels, Told.usedLiterals, Told.rule?]

theorem isNew_of_rule?_eq_none (h : t.rule? = none) : t.IsNew told := by
  intro r hr
  rw [h] at hr
  cases hr

/-- A rule is added just if it is read and new. -/
theorem addRule_soFar_eq_ok_iff {isFragment : Bool} {s rest : List Placed} {g : Grammar} :
    (addRule (soFar name told) (rule last (ofTold name told).channels isFragment notices s)).1 = .ok (g, rest) ↔
      ∃ r, r.isFragment = isFragment ∧ r.Read last (ofTold name told).channels s rest ∧ (Told.rule r).IsNew told ∧
        g = soFar name (told ++ [.rule r]) := by
  have hnew (r : Rule) : (Told.rule r).IsNew told ↔ ∀ r' ∈ (soFar name told).rules, r'.name ≠ r.name := by
    simp [Told.IsNew, Told.rule?, soFar, ofTold]
  simp only [addRule_eq_ok_iff, rule_eq_ok_iff, hnew, soFar_rule, and_assoc]

/-- A declaration that is read is one of those that can be written. -/
theorem exists_declares {symbol : Symbol} {p : Position} {s rest : List Placed} {g : Grammar}
    (h : (declaration last onlyLexer (soFar name told) notices symbol p s).1 = .ok (g, rest)) :
    ∃ t, Declares last onlyLexer (ofTold name told).channels t ((symbol, p) :: s) rest ∧ t.IsNew told ∧
      g = soFar name (told ++ [t]) := by
  have taken {α : Type} {f : α → Grammar} {r : Taken α} (h : (r.mapValue f, notices).1 = .ok (g, rest)) :
      ∃ a, r = .ok (a, rest) ∧ f a = g := Taken.mapValue_eq_ok h
  unfold declaration at h
  split at h
  · next word =>
    unfold wordDeclaration at h
    split at h
    · next hword =>
      obtain ⟨body, hblock, rfl⟩ := taken h
      obtain ⟨q, rfl⟩ := block_eq_ok_iff.mp hblock
      exact ⟨.nothing, hword ▸ .options, isNew_of_rule?_eq_none rfl, soFar_nothing.symm⟩
    split at h
    · next hword =>
      obtain ⟨found, hblock, rfl⟩ := taken h
      obtain ⟨body, q, rfl, hnames⟩ := nameBlock_eq_ok_iff.mp hblock
      exact ⟨.tokens found, hword ▸ .tokens hnames, isNew_of_rule?_eq_none rfl, (soFar_tokens found).symm⟩
    split at h
    · next hword =>
      obtain ⟨found, hblock, rfl⟩ := taken h
      obtain ⟨body, q, rfl, hnames⟩ := nameBlock_eq_ok_iff.mp hblock
      exact ⟨.channels found, hword ▸ .channels hnames, isNew_of_rule?_eq_none rfl, (soFar_channels found).symm⟩
    split at h
    · cases h
    split at h
    · cases h
    split at h
    · next hword =>
      obtain ⟨r, hfragment, hread, hnew, rfl⟩ := addRule_soFar_eq_ok_iff.mp h
      exact ⟨.rule r, hword ▸ .fragment hfragment hread, hnew, rfl⟩
    split at h
    · cases h
    split at h
    · next hparser hword =>
      obtain ⟨body, hhandler, rfl⟩ := taken h
      obtain ⟨argument, q, rfl, hargument⟩ := handler_eq_ok_iff.mp hhandler
      refine ⟨.nothing, .handler (Bool.eq_false_iff.mpr hparser) hword hargument, isNew_of_rule?_eq_none rfl,
        soFar_nothing.symm⟩
    · next hoptions htokens hchannels himport hmode hfragment hparser hhandler =>
      obtain ⟨found, hread, rfl⟩ := taken h
      obtain ⟨u, q, rfl, hu, rfl⟩ := parserRule_eq_ok_iff.mp hread
      have hword : word ∉ declarationWords := by
        simp_all [declarationWords]
      exact ⟨.literals (literalsOf u), .parserRule (Bool.eq_false_iff.mpr hparser) hword hu, isNew_of_rule?_eq_none rfl,
        (soFar_literals _).symm⟩
  · obtain ⟨r, hfragment, hread, hnew, rfl⟩ := addRule_soFar_eq_ok_iff.mp h
    exact ⟨.rule r, .rule hfragment hread, hnew, rfl⟩
  · split at h
    · cases h
    · next hname =>
      cases h
      obtain ⟨u, body, q, rfl, hu⟩ := namedAction_eq_ok_iff.mp ⟨_, hname⟩
      exact ⟨.nothing, .action hu, isNew_of_rule?_eq_none rfl, soFar_nothing.symm⟩
  · cases h

/-- Each declaration that can be written is read. -/
theorem declaration_of_declares {s rest : List Placed}
    (h : Declares last onlyLexer (ofTold name told).channels t s rest) (hnew : t.IsNew told) (notices : List Notice) :
    ∃ symbol p s', s = (symbol, p) :: s' ∧
        (declaration last onlyLexer (soFar name told) notices symbol p s').1 = .ok (soFar name (told ++ [t]), rest) := by
  cases h with
  | options =>
    refine ⟨_, _, _, rfl, ?_⟩
    rw [soFar_nothing]
    rfl
  | @tokens body found p q _ hnames =>
    have hread : nameBlock last "tokens" ((.action body, q) :: rest) = .ok (found, rest) :=
      nameBlock_eq_ok_iff.mpr ⟨body, q, rfl, hnames⟩
    refine ⟨_, _, _, rfl, ?_⟩
    rw [soFar_tokens]
    simp [declaration, wordDeclaration, hread, Taken.mapValue, Except.map]
  | @channels body found p q _ hnames =>
    have hread : nameBlock last "channels" ((.action body, q) :: rest) = .ok (found, rest) :=
      nameBlock_eq_ok_iff.mpr ⟨body, q, rfl, hnames⟩
    refine ⟨_, _, _, rfl, ?_⟩
    rw [soFar_channels]
    simp [declaration, wordDeclaration, hread, Taken.mapValue, Except.map]
  | @action words _ body p q hname =>
    obtain ⟨found, hread⟩ : ∃ found, namedAction last (words ++ (.action body, q) :: rest) = .ok (found, rest) :=
      namedAction_eq_ok_iff.mpr ⟨words, body, q, rfl, hname⟩
    refine ⟨_, _, _, rfl, ?_⟩
    rw [soFar_nothing]
    simp [declaration, hread]
  | @handler word body argument _ p q hparser hword hargument =>
    have hread : Grammar.handler last word (argument ++ (.action body, q) :: rest) = .ok (body, rest) :=
      handler_eq_ok_iff.mpr ⟨argument, q, rfl, hargument⟩
    refine ⟨_, _, _, rfl, ?_⟩
    rw [soFar_nothing]
    rcases hword with rfl | rfl <;> simp [declaration, wordDeclaration, hparser, hread, Taken.mapValue, Except.map]
  | @parserRule word u _ p q hparser hword hu =>
    have hread : Grammar.parserRule last word (soFar name told).parserLiterals (u ++ (.semicolon, q) :: rest) =
        .ok ((firstUses (told.flatMap Told.usedLiterals ++ literalsOf u)).reverse, rest) :=
      parserRule_eq_ok_iff.mpr ⟨u, q, rfl, hu, rfl⟩
    simp only [declarationWords, List.mem_cons, List.not_mem_nil, or_false, not_or] at hword
    refine ⟨_, _, _, rfl, ?_⟩
    rw [soFar_literals]
    simp [declaration, wordDeclaration, hparser, hword, hread, Taken.mapValue, Except.map]
  | @rule r _ _ hfragment hread =>
    have hadd : (addRule (soFar name told) (Grammar.rule last (ofTold name told).channels false notices s)).1 =
        .ok (soFar name (told ++ [.rule r]), rest) := addRule_soFar_eq_ok_iff.mpr ⟨r, hfragment, hread, hnew, rfl⟩
    obtain ⟨found, hread, -⟩ := hread
    obtain ⟨p, u, rfl⟩ := hread.exists_cons
    exact ⟨_, _, _, rfl, hadd⟩
  | fragment hfragment hread =>
    exact ⟨_, _, _, rfl, addRule_soFar_eq_ok_iff.mpr ⟨_, hfragment, hread, hnew, rfl⟩⟩

/-- Whether declarations tell of no two rules of one name. -/
def RulesDistinct (told : List Told) : Prop := ((told.filterMap Told.rule?).map Rule.name).Nodup

theorem rulesDistinct_concat_iff : RulesDistinct (told ++ [t]) ↔ RulesDistinct told ∧ t.IsNew told := by
  unfold RulesDistinct Told.IsNew
  rw [List.filterMap_append, List.map_append, List.nodup_append]
  cases h : t.rule? with
  | none => simp [h]
  | some r => simpa [h] using fun _ => ⟨fun hnew r' t ht hr' => hnew _ r' t ht hr' rfl,
      fun hnew _ r' t ht hr' hname => hname ▸ hnew r' t ht hr'⟩

theorem RulesDistinct.of_append {more : List Told} (h : RulesDistinct (told ++ more)) : RulesDistinct told := by
  unfold RulesDistinct at *
  rw [List.filterMap_append, List.map_append] at h
  exact h.of_append_left

theorem channels_ofTold_concat (name : String) (told : List Told) (t : Told) :
    (ofTold name (told ++ [t])).channels = (ofTold name told).channels ++ t.declaredChannels := by
  simp [ofTold]

/-- Declarations that can be written are read, up to what follows them. -/
theorem declarations_of_told {channels : List String} {more : List Told} {s rest : List Placed}
    (h : Declarations last onlyLexer channels more s rest) (hchannels : channels = (ofTold name told).channels)
    (hdistinct : RulesDistinct (told ++ more)) (notices : List Notice) : ∃ notices',
      declarations last onlyLexer (soFar name told) notices s =
        declarations last onlyLexer (soFar name (told ++ more)) notices' rest := by
  induction h generalizing told notices with
  | nil => exact ⟨notices, by rw [List.append_nil]⟩
  | @cons channels t more s s' rest h _ ih =>
    rw [List.append_cons] at hdistinct ⊢
    obtain ⟨-, hnew⟩ := rulesDistinct_concat_iff.mp hdistinct.of_append
    obtain ⟨symbol, p, u, rfl, hread⟩ := declaration_of_declares (hchannels ▸ h) hnew notices
    obtain ⟨notices', hrest⟩ := ih (by rw [channels_ofTold_concat, hchannels]) hdistinct
      (declaration last onlyLexer (soFar name told) notices symbol p u).2
    exact ⟨notices', (declarations_cons (Prod.ext hread rfl)).trans hrest⟩

/-- Declarations that are read up to the end can be written. -/
theorem exists_declarations {s : List Placed} {g : Grammar} (hdistinct : RulesDistinct told)
    (h : (declarations last onlyLexer (soFar name told) notices s).1 = .ok g) : ∃ more,
      Declarations last onlyLexer (ofTold name told).channels more s [] ∧ RulesDistinct (told ++ more) ∧
        g = ofTold name (told ++ more) := by
  generalize hsoFar : soFar name told = before at h
  fun_induction declarations last onlyLexer before notices s generalizing told with
  | case1 before notices =>
    subst hsoFar
    cases h
    exact ⟨[], .nil, by rwa [List.append_nil], by simp [soFar]⟩
  | case2 before notices symbol p s next rest notices' hnext ih =>
    subst hsoFar
    obtain ⟨t, hdeclares, hnew, rfl⟩ := exists_declares (congrArg Prod.fst hnext)
    obtain ⟨more, hmore, hdistinct, rfl⟩ := ih (rulesDistinct_concat_iff.mpr ⟨hdistinct, hnew⟩) rfl h
    refine ⟨t :: more, .cons hdeclares ?_, ?_, ?_⟩
    · rwa [← channels_ofTold_concat]
    · rwa [List.append_cons]
    · rw [List.append_assoc, List.singleton_append]
  | case3 => cases h

/-- Alternatives that disagree end the reading of declarations. -/
theorem declarations_of_disagreeing {g : Grammar} {word : String} {line : Nat} {found : List (List Element × Action)}
    {s t rest : List Placed} (hread : RuleRead last g.channels word line found t rest)
    (hs : s = t ∨ ∃ p, s = (.ruleName "fragment", p) :: t) {a b : List Element × Action} (ha : a ∈ found) (hb : b ∈ found)
    (hne : a.2 ≠ b.2) : (declarations last onlyLexer g notices s).1 =
      .error (faultAt last rest (.unsupported "different lexer commands per alternative")) := by
  have hrule (isFragment : Bool) : (addRule g (rule last g.channels isFragment notices t)).1 =
      .error (faultAt last rest (.unsupported "different lexer commands per alternative")) := by
    have herror := rule_of_read hread isFragment notices
    rw [ruleOf_eq_error ha hb hne] at herror
    unfold addRule
    split
    · next h => rw [h] at herror; cases herror; rfl
    · next h => rw [h] at herror; cases herror
  have hstop {symbol : Symbol} {p : Position} {u : List Placed}
      (h : (declaration last onlyLexer g notices symbol p u).1 =
        .error (faultAt last rest (.unsupported "different lexer commands per alternative"))) :
      (declarations last onlyLexer g notices ((symbol, p) :: u)).1 =
        .error (faultAt last rest (.unsupported "different lexer commands per alternative")) := by
    rw [declarations.eq_def]
    dsimp only
    split
    · next h' => rw [h'] at h; cases h
    · next h' => rw [h'] at h; cases h; rfl
  obtain ⟨q, u, rfl⟩ := hread.exists_cons
  rcases hs with rfl | ⟨p, rfl⟩
  · exact hstop (hrule false)
  · refine hstop ?_
    simp [declaration, wordDeclaration, hrule]

end Told

/-! ## Sources -/

/-- Whether a source is a header and declarations that tell about a grammar, with `rest` after them. -/
def Tells (source : String) (last : Position) (onlyLexer : Bool) (name : String) (told : List Told)
    (rest : List Placed) : Prop :=
  ∃ s t, symbols source = .ok s ∧ last = s.getLast?.elim .start Prod.snd ∧
    header last s = .ok ((name, onlyLexer), t) ∧ Declarations last onlyLexer [] told t rest

variable {source name : String} {onlyLexer : Bool} {told : List Told}

/-- After declarations, the rest of a source decides. -/
theorem parse_of_tells {rest : List Placed} (h : Tells source last onlyLexer name told rest) (hdistinct : RulesDistinct told) :
    ∃ notices, parse source = (declarations last onlyLexer (soFar name told) notices rest).1 := by
  obtain ⟨s, t, hsymbols, rfl, hheader, hdeclarations⟩ := h
  obtain ⟨notices, hread⟩ := @declarations_of_told _ name [] onlyLexer [] told t rest hdeclarations rfl hdistinct []
  refine ⟨notices, ?_⟩
  unfold parse read
  rw [hsymbols]
  dsimp only
  unfold ofSymbols
  dsimp only
  rw [hheader]
  exact congrArg Prod.fst hread

/-- A source is accepted if it is a header and declarations up to its end, and tells of no two rules of one name. The
grammar is the one about which it tells. -/
theorem parse_eq_ok_iff {g : Grammar} : parse source = .ok g ↔ ∃ last onlyLexer told,
    Tells source last onlyLexer g.name told [] ∧ RulesDistinct told ∧ g = ofTold g.name told := by
  constructor
  · intro h
    unfold parse read at h
    split at h
    · cases h
    · next s hsymbols =>
      unfold ofSymbols at h
      dsimp only at h
      split at h
      · cases h
      · next name onlyLexer t hheader =>
        obtain ⟨told, hdeclarations, hdistinct, rfl⟩ := @exists_declarations _ name [] onlyLexer [] t g List.nodup_nil h
        exact ⟨_, onlyLexer, told, ⟨s, t, hsymbols, rfl, hheader, hdeclarations⟩, hdistinct, rfl⟩
  · rintro ⟨last, onlyLexer, told, htells, hdistinct, hg⟩
    obtain ⟨notices, hread⟩ := parse_of_tells htells hdistinct
    rw [hread, declarations.eq_def]
    refine congrArg Except.ok (Eq.trans ?_ hg.symm)
    simp [soFar]

/-- What grammars satisfy that are parsed. -/
structure WellFormed (g : Grammar) : Prop where
  nodup_names : (g.rules.map Rule.name).Nodup
  rules : g.RulesWellFormed
  nodup_parserLiterals : g.parserLiterals.Nodup
  parserLiterals_ne : ∀ literal ∈ g.parserLiterals, literal ≠ ""

theorem wellFormed_of_parse {g : Grammar} (h : parse source = .ok g) : g.WellFormed := by
  obtain ⟨last, onlyLexer, told, -, hdistinct, hg⟩ := parse_eq_ok_iff.mp h
  have hliterals : g.parserLiterals = firstUses (told.flatMap Told.usedLiterals) := by rw [hg]; rfl
  refine ⟨?_, rulesWellFormed_of_parse h, ?_, ?_⟩
  · rw [hg]
    exact hdistinct
  · rw [hliterals]
    exact nodup_firstUses _
  · rw [hliterals]
    exact fun literal hliteral => (mem_firstUses_iff.mp hliteral).2

/-- **Parsed grammars are well formed.** The names of the rules are distinct and begin with an uppercase letter, the literals
of the parser are distinct and not empty, and the elements of rules are well formed at every depth. The grammar is what the
declarations of the source tell, one after the other: on each alternative of a rule the action of the rule is written. A rule
on whose alternatives different actions are written is refused. -/
theorem parse_wellFormed (source : String) :
    (∀ g, parse source = .ok g → g.WellFormed ∧ ∃ last onlyLexer told,
      Tells source last onlyLexer g.name told [] ∧ g = ofTold g.name told) ∧
    ∀ last onlyLexer name told s, Tells source last onlyLexer name told s → RulesDistinct told →
      ∀ word line found t rest, RuleRead last (ofTold name told).channels word line found t rest →
        (s = t ∨ ∃ p, s = (.ruleName "fragment", p) :: t) → ∀ a ∈ found, ∀ b ∈ found, a.2 ≠ b.2 →
          parse source = .error (faultAt last rest (.unsupported "different lexer commands per alternative")) := by
  constructor
  · intro g h
    obtain ⟨last, onlyLexer, told, htells, -, hg⟩ := parse_eq_ok_iff.mp h
    exact ⟨wellFormed_of_parse h, last, onlyLexer, told, htells, hg⟩
  · intro last onlyLexer name told s htells hdistinct word line found t rest hread hs a ha b hb hne
    obtain ⟨notices, hparse⟩ := parse_of_tells htells hdistinct
    exact hparse.trans (declarations_of_disagreeing hread hs ha hb hne)

theorem parse_wellFormed_skip :
    (∃ g, parse "grammar G; s : '+' '-' '+' ; A : 'a' -> skip | 'b' -> skip ;" = .ok g ∧ g.parserLiterals = ["+", "-"] ∧
      g.WellFormed) ∧
    parse "lexer grammar G; A : 'a' -> skip | 'b' ;" =
      .error (.unsupported "different lexer commands per alternative" 1) := by
  constructor
  · have hliterals : (parse "grammar G; s : '+' '-' '+' ; A : 'a' -> skip | 'b' -> skip ;").toOption.map
        Grammar.parserLiterals = some ["+", "-"] := by decide +kernel
    cases hg : parse "grammar G; s : '+' '-' '+' ; A : 'a' -> skip | 'b' -> skip ;" with
    | error e =>
      rw [hg] at hliterals
      cases hliterals
    | ok g =>
      rw [hg] at hliterals
      exact ⟨g, rfl, Option.some.inj hliterals, ((parse_wellFormed _).1 g hg).1⟩
  · let second : List Placed := [(.literal "b", ⟨35, 1, 36⟩), (.semicolon, ⟨39, 1, 40⟩)]
    let first : List Placed := (.literal "a", ⟨21, 1, 22⟩) ::
      ([(.arrow, ⟨25, 1, 26⟩), (.ruleName "skip", ⟨28, 1, 29⟩)] ++ (.bar, ⟨33, 1, 34⟩) :: second)
    let s : List Placed := (.tokenName "A", ⟨17, 1, 18⟩) :: ([] ++ (.colon, ⟨19, 1, 20⟩) :: first)
    have hsymbols : symbols "lexer grammar G; A : 'a' -> skip | 'b' ;" = .ok ((.ruleName "lexer", ⟨0, 1, 1⟩) ::
        (.ruleName "grammar", ⟨6, 1, 7⟩) :: (.tokenName "G", ⟨14, 1, 15⟩) :: (.semicolon, ⟨15, 1, 16⟩) :: s) := by
      decide +kernel
    have hsecond : (sequence ⟨39, 1, 40⟩ "A" [] 0 [] [] second).1 =
        .ok ([.literal "b"], [] ++ [(.semicolon, ⟨39, 1, 40⟩)]) := by
      rw [sequence_leaf rfl rfl, sequence_end (.inl rfl)]
      rfl
    have hfirst : (sequence ⟨39, 1, 40⟩ "A" [] 0 [] [] first).1 = .ok ([.literal "a"],
        [(.arrow, ⟨25, 1, 26⟩), (.ruleName "skip", ⟨28, 1, 29⟩)] ++ (.bar, ⟨33, 1, 34⟩) :: second) := by
      rw [sequence_leaf rfl rfl, List.cons_append, sequence_end (.inr rfl)]
      rfl
    have hread : RuleRead ⟨39, 1, 40⟩ [] "A" 1 [([.literal "a"], .skip), ([.literal "b"], .emit defaultChannel)] s [] :=
      @RuleRead.intro _ _ _ _ ⟨17, 1, 18⟩ _ [] first [] .none
        (.cons hfirst (.commands (.one (.skip (.inr rfl)))) (.last hsecond .none))
    exact (parse_wellFormed _).2 _ true "G" [] s ⟨_, s, hsymbols, rfl, rfl, .nil⟩ List.nodup_nil "A" 1 _ s [] hread
      (.inl rfl) _ List.mem_cons_self _ (List.mem_cons_of_mem _ List.mem_cons_self) (by decide)

end Grammar

end Lexeme
