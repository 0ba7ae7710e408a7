import Lexeme.Proofs.Grammar.Printing

/-!
# Printed grammars are read back

A grammar is printed as a header, blocks of its tokens and channels, a parser rule that lists the literals of the parser,
and its lexer rules (`Grammar.Prints`). It has many texts: white space may stand between symbols, and a character of a
literal or a set may be escaped or not. If its names are valid and its rules well formed (`Grammar.Printable`), there is
such a text (`Grammar.exists_prints`), and the symbols of each are read as the grammar, except for the lines of its rules
(`Grammar.ofSymbols_printedSymbols`).
-/

namespace Lexeme

open Grammar

/-! ## Blocks of names -/

namespace Grammar

/-- The blocks that declare names: commas stand between them, or after each of them, and white space around them. -/
inductive Lists : List String → List Char → Prop
  | nil {gap : List Char} (hgap : ∀ c ∈ gap, Text.isBlank c = true) : Lists [] gap
  | last {name : String} {before after : List Char} (hbefore : ∀ c ∈ before, Text.isBlank c = true)
      (hafter : ∀ c ∈ after, Text.isBlank c = true) : Lists [name] (before ++ (name.toList ++ after))
  | cons {name : String} {names : List String} {before after body : List Char}
      (hbefore : ∀ c ∈ before, Text.isBlank c = true) (hafter : ∀ c ∈ after, Text.isBlank c = true)
      (h : Lists names body) : Lists (name :: names) ((before ++ (name.toList ++ after)) ++ ',' :: body)

/-- A word that can be declared begins with a letter, and all of it can stand in a name. -/
theorem isDeclarable_iff {w : List Char} :
    isDeclarable w = true ↔ ∃ c rest, w = c :: rest ∧ Text.isAlphabetic c = true ∧ ∀ d ∈ w, isNameChar d = true := by
  cases w <;> simp [isDeclarable]

/-- The white space around a name is removed. -/
theorem trim_eq {w before after : List Char} (hw : isDeclarable w = true) (hbefore : ∀ c ∈ before, Text.isBlank c = true)
    (hafter : ∀ c ∈ after, Text.isBlank c = true) : Text.trim (before ++ (w ++ after)) = w := by
  obtain ⟨c, rest, rfl, -, hall⟩ := isDeclarable_iff.mp hw
  have hhead : ∀ d ∈ ((c :: rest) ++ after).head?, Text.isBlank d = false := by
    intro d hd
    obtain rfl := Option.some.inj hd
    exact isBlank_eq_false_of_isNameChar (hall _ List.mem_cons_self)
  have hlast : ∀ d ∈ (c :: rest).reverse.head?, Text.isBlank d = false := by
    intro d hd
    exact isBlank_eq_false_of_isNameChar (hall d (List.mem_reverse.mp (List.mem_of_mem_head? hd)))
  unfold Text.trim
  rw [dropWhile_append_of_stop hbefore hhead, List.reverse_append,
    dropWhile_append_of_stop (by simpa using hafter) hlast, List.reverse_reverse]

theorem comma_notMem {w before after : List Char} (hw : isDeclarable w = true)
    (hbefore : ∀ c ∈ before, Text.isBlank c = true) (hafter : ∀ c ∈ after, Text.isBlank c = true) :
    ',' ∉ before ++ (w ++ after) := by
  have hblank : Text.isBlank ',' ≠ true := by decide
  have hname : isNameChar ',' ≠ true := by decide +kernel
  obtain ⟨c, rest, -, -, hall⟩ := isDeclarable_iff.mp hw
  simp only [List.mem_append, not_or]
  exact ⟨fun h => hblank (hbefore _ h), fun h => hname (hall _ h), fun h => hblank (hafter _ h)⟩

/-- The names of a block are found between its commas. -/
theorem names_of_lists {names : List String} {body : List Char} (h : Lists names body)
    (hnames : ∀ name ∈ names, isDeclarable name.toList = true) :
    ((commaSeparated body).map Text.trim).filter (· ≠ []) = names.map String.toList := by
  unfold commaSeparated
  induction h with
  | @nil gap hgap =>
    have hcomma : ',' ∉ gap := fun h => absurd (hgap _ h) (by decide)
    have htrim : Text.trim gap = [] := by
      have hdrop := @dropWhile_append_of_stop _ Text.isBlank gap [] hgap (by simp)
      rw [List.append_nil] at hdrop
      simp [Text.trim, hdrop]
    simp [List.splitOn_eq_singleton hcomma, htrim]
  | @last name before after hbefore hafter =>
    have hname := hnames name List.mem_cons_self
    obtain ⟨c, rest, heq, -⟩ := isDeclarable_iff.mp hname
    rw [List.splitOn_eq_singleton (comma_notMem hname hbefore hafter), List.map_singleton, trim_eq hname hbefore hafter]
    simp [heq]
  | @cons name names before after body hbefore hafter _ ih =>
    obtain ⟨hname, hnames⟩ := List.forall_mem_cons.mp hnames
    obtain ⟨c, rest, heq, -⟩ := isDeclarable_iff.mp hname
    rw [List.splitOn_append_cons_self_of_not_mem (comma_notMem hname hbefore hafter), List.map_cons, List.filter_cons,
      trim_eq hname hbefore hafter, if_pos (by simp [heq]), ih hnames, List.map_cons]

theorem names_eq_ok {last : Position} {names : List String} {body : List Char} (h : Lists names body)
    (hnames : ∀ name ∈ names, isDeclarable name.toList = true) (rest : List Placed) :
    Grammar.names last (String.ofList body) rest = .ok names := by
  unfold Grammar.names
  rw [String.toList_ofList, names_of_lists h hnames]
  clear h
  induction names with
  | nil => rfl
  | cons name names ih =>
    obtain ⟨hname, hnames⟩ := List.forall_mem_cons.mp hnames
    rw [List.map_cons, List.mapM_cons, ih hnames, if_pos hname, String.ofList_toList]
    rfl

theorem nameBlock_eq_ok {last : Position} {names : List String} {body : List Char} (h : Lists names body)
    (hnames : ∀ name ∈ names, isDeclarable name.toList = true) (owner : String) (p : Position) (rest : List Placed) :
    nameBlock last owner ((.action (String.ofList body), p) :: rest) = .ok (names, rest) := by
  unfold nameBlock block
  dsimp only
  rw [names_eq_ok h hnames]
  rfl

theorem isPlain_of_all {p : Char → Bool} (hp : ['\x7b', '\x7d', '\'', '"'].all (fun c => !p c) = true) {c : Char}
    (hc : p c = true) : isPlain c = true := by
  have hne : ∀ d ∈ ['\x7b', '\x7d', '\'', '"'], c ≠ d := by
    rintro d hd rfl
    have hother := List.all_eq_true.mp hp c hd
    rw [hc] at hother
    cases hother
  simpa [isPlain, and_assoc] using hne

/-- The text of a block has neither braces nor quotation marks. -/
theorem isPlain_of_lists {names : List String} {body : List Char} (h : Lists names body)
    (hnames : ∀ name ∈ names, isDeclarable name.toList = true) : ∀ c ∈ body, isPlain c = true := by
  have hblank {c : Char} (hc : Text.isBlank c = true) : isPlain c = true := isPlain_of_all (by decide) hc
  have hpiece {w before after : List Char} (hw : isDeclarable w = true) (hbefore : ∀ c ∈ before, Text.isBlank c = true)
      (hafter : ∀ c ∈ after, Text.isBlank c = true) : ∀ c ∈ before ++ (w ++ after), isPlain c = true := by
    obtain ⟨_, _, -, -, hall⟩ := isDeclarable_iff.mp hw
    intro c hc
    rcases List.mem_append.mp hc with hc | hc
    · exact hblank (hbefore c hc)
    · rcases List.mem_append.mp hc with hc | hc
      · exact isPlain_of_all (by decide +kernel) (hall c hc)
      · exact hblank (hafter c hc)
  induction h with
  | nil hgap => exact fun c hc => hblank (hgap c hc)
  | @last name before after hbefore hafter => exact hpiece (hnames name List.mem_cons_self) hbefore hafter
  | @cons name names before after body hbefore hafter _ ih =>
    obtain ⟨hname, hnames⟩ := List.forall_mem_cons.mp hnames
    intro c hc
    rcases List.mem_append.mp hc with hc | hc
    · exact hpiece hname hbefore hafter c hc
    · rcases List.mem_cons.mp hc with rfl | hc
      · decide
      · exact ih hnames c hc

theorem exists_lists : ∀ names : List String, ∃ body, Lists names body
  | [] => ⟨[], .nil (by simp)⟩
  | name :: names => by
    obtain ⟨body, hbody⟩ := exists_lists names
    exact ⟨_, @Lists.cons name names [] [] body (by simp) (by simp) hbody⟩

/-! ## Declarations -/

/-- The symbol of a name. -/
def nameSymbol (name : String) : Symbol :=
  if name.toList.head?.any Text.isUppercase then .tokenName name else .ruleName name

variable {last : Position} {notices : List Notice}

theorem identifier_nameSymbol (name : String) (p : Position) (rest : List Placed) :
    identifier last ((nameSymbol name, p) :: rest) = .ok (name, rest) := by
  unfold nameSymbol
  split <;> rfl

/-- The literals of a parser rule are read back. -/
theorem parserRule_literals {name : String} {texts done : List String} (hne : ∀ text ∈ texts, text ≠ "")
    (hnodup : (done.reverse ++ texts).Nodup) {p : List Placed} (hp : p.map Prod.fst = texts.map .literal) (q : Position)
    (rest : List Placed) :
    parserRule last name done (p ++ (.semicolon, q) :: rest) = .ok (texts.reverse ++ done, rest) := by
  induction texts generalizing done p with
  | nil =>
    obtain rfl := List.map_eq_nil_iff.mp hp
    rfl
  | cons text texts ih =>
    obtain ⟨htext, hne⟩ := List.forall_mem_cons.mp hne
    obtain ⟨q', t, rfl, ht⟩ := exists_cons_of_map hp
    have hnodup' : ((text :: done).reverse ++ texts).Nodup := by simpa using hnodup
    have hnew : text ∉ done := by
      rw [List.nodup_append] at hnodup
      exact fun h => hnodup.2.2 text (List.mem_reverse.mpr h) text List.mem_cons_self rfl
    rw [List.cons_append, parserRule, if_neg (by simp [htext, hnew]), ih hne hnodup' ht]
    simp

theorem declarations_cons {onlyLexer : Bool} {g g' : Grammar} {notices' : List Notice} {symbol : Symbol} {p : Position}
    {s rest : List Placed} (h : declaration last onlyLexer g notices symbol p s = (.ok (g', rest), notices')) :
    declarations last onlyLexer g notices ((symbol, p) :: s) = declarations last onlyLexer g' notices' rest := by
  rw [declarations.eq_def]
  dsimp only
  split
  · next h' =>
    cases h'.symm.trans h
    rfl
  · next h' => cases h'.symm.trans h

end Grammar

/-- A rule wherever it stands. -/
def Rule.withoutLine (rule : Rule) : Rule := { rule with line := 0 }

/-- A grammar wherever its rules stand. -/
def Grammar.withoutLines (g : Grammar) : Grammar := { g with rules := g.rules.map Rule.withoutLine }

namespace Grammar

variable {last : Position} {notices : List Notice}

/-- A rule is added to a grammar that has none of its name. -/
theorem declarations_rule {g : Grammar} {r : Rule} (hwf : r.WellFormed) (hnew : ∀ r' ∈ g.rules, r'.name ≠ r.name)
    {p : List Placed} (hp : p.map Prod.fst = r.symbols) (rest : List Placed) :
    ∃ line, declarations last false g notices (p ++ rest) =
      declarations last false { g with rules := { r with line := line } :: g.rules } notices rest := by
  have hany : (g.rules.any fun r' => r'.name = r.name) = false := by simpa using hnew
  have hadd (line : Nat) : addRule g (.ok ({ r with line := line }, rest), notices) =
      (.ok ({ g with rules := { r with line := line } :: g.rules }, rest), notices) := by
    simp [addRule, hany]
  unfold Rule.symbols at hp
  by_cases hfragment : r.isFragment = true
  · rw [if_pos hfragment] at hp
    obtain ⟨q, t, rfl, ht⟩ := exists_cons_of_map hp
    obtain ⟨line, hline⟩ := @rule_symbols last notices r hwf g.channels t ht rest
    refine ⟨line, declarations_cons (Eq.trans ?_ (hadd line))⟩
    rw [← hline, hfragment]
    simp [declaration, wordDeclaration]
  · rw [if_neg hfragment] at hp
    obtain ⟨line, hline⟩ := @rule_symbols last notices r hwf g.channels p hp rest
    unfold Rule.body at hp
    obtain ⟨q, t, rfl, -⟩ := exists_cons_of_map hp
    refine ⟨line, declarations_cons (Eq.trans ?_ (hadd line))⟩
    rw [← hline, Bool.eq_false_iff.mpr hfragment]
    rfl

/-- Rules of different names are added to a grammar that has none of their names. -/
theorem declarations_rules {g : Grammar} {rules : List Rule} (hwf : ∀ r ∈ rules, r.WellFormed)
    (hnodup : ((g.rules.reverse ++ rules).map Rule.name).Nodup) {p : List Placed}
    (hp : p.map Prod.fst = rules.flatMap Rule.symbols) :
    ∃ found, declarations last false g notices p = (.ok found, notices) ∧ found.withoutLines =
      { g with parserLiterals := g.parserLiterals.reverse, rules := g.rules.reverse ++ rules }.withoutLines := by
  -- Each rule is added with its line to a grammar that the others are added to.
  induction rules generalizing g p with
  | nil =>
    obtain rfl := List.map_eq_nil_iff.mp hp
    rw [declarations.eq_def]
    exact ⟨_, rfl, by rw [List.append_nil]⟩
  | cons r rules ih =>
    obtain ⟨hr, hwf⟩ := List.forall_mem_cons.mp hwf
    rw [List.flatMap_cons] at hp
    obtain ⟨s, t, rfl, hs, ht⟩ := List.map_eq_append_iff.mp hp
    have hnew : ∀ r' ∈ g.rules, r'.name ≠ r.name := by
      intro r' hr'
      rw [List.map_append, List.nodup_append] at hnodup
      exact hnodup.2.2 _ (List.mem_map_of_mem (List.mem_reverse.mpr hr')) _ (List.mem_map_of_mem List.mem_cons_self)
    obtain ⟨line, hline⟩ := @declarations_rule last notices g r hr hnew s hs t
    obtain ⟨found, hfound, hlines⟩ := @ih { g with rules := { r with line := line } :: g.rules } hwf
      (by simpa using hnodup) t ht
    exact ⟨found, hline.trans hfound, by rw [hlines]; simp [withoutLines, Rule.withoutLine]⟩

/-! ## Sources -/

/-- The symbols of a grammar, with the blocks of its tokens and channels. -/
def printedSymbols (g : Grammar) (tokens channels : List Char) : List Symbol :=
  .ruleName "grammar" :: nameSymbol g.name :: .semicolon :: .ruleName "tokens" :: .action (String.ofList tokens) ::
    .ruleName "channels" :: .action (String.ofList channels) :: .ruleName "literals" :: .colon ::
    (g.parserLiterals.map .literal ++ .semicolon :: g.rules.flatMap Rule.symbols)

/-- The texts that a grammar is printed as. -/
def Prints (g : Grammar) (text : String) : Prop :=
  ∃ tokens channels, Lists g.declaredTokens tokens ∧ Lists g.channels channels ∧
    Spells (g.printedSymbols tokens channels) text.toList

/-- Whether a text can name a grammar. -/
def IsIdentifier (name : String) : Prop :=
  IsName name ∧ ∃ c, name.toList.head? = some c ∧ (Text.isAlphabetic c || c = '_') = true

/-- The grammars that can be printed: their names are valid, their rules are well formed, and neither a rule nor a literal
is told twice. A channel has a number that a source can hold. -/
structure Printable (g : Grammar) : Prop where
  name : IsIdentifier g.name
  declaredTokens : ∀ name ∈ g.declaredTokens, isDeclarable name.toList = true
  channels : ∀ name ∈ g.channels, isDeclarable name.toList = true
  parserLiterals : ∀ text ∈ g.parserLiterals, text ≠ ""
  nodup_parserLiterals : g.parserLiterals.Nodup
  rules : g.RulesWellFormed
  nodup_names : (g.rules.map Rule.name).Nodup
  channel_le : ∀ rule ∈ g.rules, ∀ channel, rule.action = .emit channel → channel ≤ maxInteger

/-- Texts in quotation marks, in which a quotation mark can stand after a backslash, and the blanks between them. -/
def quotations : Grammar :=
  ⟨"Quotations", ["OTHER"], ["NOTES"], [",", "'"],
    [⟨"TEXT", false, [[.literal "\"", .repeated .zeroOrMore false (.group
        [[.literal "\\\""], [.set true [.single '\\', .single '"', .range '\n' '\r']]]), .literal "\""]], .emit 2, 0⟩,
      ⟨"BLANKS", false, [[.repeated .oneOrMore true (.reference "BLANK")]], .skip, 0⟩,
      ⟨"BLANK", true, [[.set false [.single ' ', .single '-']], [.any, .any], []], .emit 0, 0⟩]⟩

theorem printable_quotations : quotations.Printable where
  name := ⟨List.all_eq_true.mp (by decide +kernel), 'Q', rfl, by decide +kernel⟩
  declaredTokens := by decide +kernel
  channels := by decide +kernel
  parserLiterals := by decide
  nodup_parserLiterals := by decide
  rules := by
    have htoken {c : Char} {name : String} (hname : name.toList.all isNameChar = true) (hhead : name.toList.head? = some c)
        (hc : Text.isUppercase c = true) : IsTokenName name := ⟨List.all_eq_true.mp hname, c, hhead, hc⟩
    have hblank := @htoken 'B' "BLANK" (by decide +kernel) rfl (by decide +kernel)
    intro rule hrule
    simp only [quotations, List.mem_cons, List.not_mem_nil, or_false] at hrule
    rcases hrule with rfl | rfl | rfl
    · refine ⟨@htoken 'T' _ (by decide +kernel) rfl (by decide +kernel), by simp, ?_⟩
      simp [ChoiceWellFormed, SequenceWellFormed, Element.WellFormed, Element.isRepeated, ValidItems, SetItem.Ordered]
    · refine ⟨@htoken 'B' _ (by decide +kernel) rfl (by decide +kernel), by simp, ?_⟩
      simp [ChoiceWellFormed, SequenceWellFormed, Element.WellFormed, Element.isRepeated, hblank]
    · refine ⟨hblank, by simp, ?_⟩
      simp [ChoiceWellFormed, SequenceWellFormed, Element.WellFormed, ValidItems, SetItem.Ordered]
  nodup_names := by decide
  channel_le := by
    intro rule hrule channel hchannel
    simp only [quotations, List.mem_cons, List.not_mem_nil, or_false] at hrule
    rcases hrule with rfl | rfl | rfl <;> cases hchannel <;> decide

theorem header_printed (name : String) (p₁ p₂ p₃ : Position) (rest : List Placed) :
    header last ((.ruleName "grammar", p₁) :: (nameSymbol name, p₂) :: (.semicolon, p₃) :: rest) =
      .ok ((name, false), rest) := by
  have htitle : title last ((.ruleName "grammar", p₁) :: (nameSymbol name, p₂) :: (.semicolon, p₃) :: rest) =
      .ok (name, rest) := by
    simp [title, identifier_nameSymbol, expect, Except.map]
  simp [header, htitle, Taken.mapValue, Except.map]

section Words

variable {g : Grammar} {names : List String} {body : List Char}

theorem declaration_tokens (h : Lists names body) (hnames : ∀ name ∈ names, isDeclarable name.toList = true)
    (p q : Position) (rest : List Placed) :
    declaration last false g notices (.ruleName "tokens") p ((.action (String.ofList body), q) :: rest) =
      (.ok ({ g with declaredTokens := g.declaredTokens ++ names }, rest), notices) := by
  simp [declaration, wordDeclaration, nameBlock_eq_ok h hnames, Taken.mapValue, Except.map]

theorem declaration_channels (h : Lists names body) (hnames : ∀ name ∈ names, isDeclarable name.toList = true)
    (p q : Position) (rest : List Placed) :
    declaration last false g notices (.ruleName "channels") p ((.action (String.ofList body), q) :: rest) =
      (.ok ({ g with channels := g.channels ++ names }, rest), notices) := by
  simp [declaration, wordDeclaration, nameBlock_eq_ok h hnames, Taken.mapValue, Except.map]

theorem declaration_literals {texts : List String} (hne : ∀ text ∈ texts, text ≠ "")
    (hnodup : (g.parserLiterals.reverse ++ texts).Nodup) {s : List Placed} (hs : s.map Prod.fst = texts.map .literal)
    (p p' q : Position) (rest : List Placed) :
    declaration last false g notices (.ruleName "literals") p ((.colon, p') :: (s ++ (.semicolon, q) :: rest)) =
      (.ok ({ g with parserLiterals := texts.reverse ++ g.parserLiterals }, rest), notices) := by
  have hcolon : parserRule last "literals" g.parserLiterals ((.colon, p') :: (s ++ (.semicolon, q) :: rest)) =
      parserRule last "literals" g.parserLiterals (s ++ (.semicolon, q) :: rest) := by
    rw [parserRule]
    all_goals simp
  simp [declaration, wordDeclaration, hcolon, parserRule_literals hne hnodup hs, Taken.mapValue, Except.map]

end Words

/-- The symbols of a grammar are read as the grammar. -/
theorem ofSymbols_printedSymbols {g : Grammar} (hg : g.Printable) {tokens channels : List Char}
    (htokens : Lists g.declaredTokens tokens) (hchannels : Lists g.channels channels) {p : List Placed}
    (hp : p.map Prod.fst = g.printedSymbols tokens channels) :
    ∃ found, ofSymbols p = (.ok found, []) ∧ found.withoutLines = g.withoutLines := by
  unfold printedSymbols at hp
  obtain ⟨p₁, t₁, rfl, h₁⟩ := exists_cons_of_map hp
  obtain ⟨p₂, t₂, rfl, h₂⟩ := exists_cons_of_map h₁
  obtain ⟨p₃, t₃, rfl, h₃⟩ := exists_cons_of_map h₂
  obtain ⟨p₄, t₄, rfl, h₄⟩ := exists_cons_of_map h₃
  obtain ⟨p₅, t₅, rfl, h₅⟩ := exists_cons_of_map h₄
  obtain ⟨p₆, t₆, rfl, h₆⟩ := exists_cons_of_map h₅
  obtain ⟨p₇, t₇, rfl, h₇⟩ := exists_cons_of_map h₆
  obtain ⟨p₈, t₈, rfl, h₈⟩ := exists_cons_of_map h₇
  obtain ⟨p₉, t₉, rfl, h₉⟩ := exists_cons_of_map h₈
  obtain ⟨literals, t, rfl, hliterals, ht⟩ := List.map_eq_append_iff.mp h₉
  obtain ⟨q, rules, rfl, hrules⟩ := exists_cons_of_map ht
  unfold ofSymbols
  dsimp only
  generalize ((Symbol.ruleName "grammar", p₁) :: _).getLast?.elim Position.start Prod.snd = last
  rw [header_printed]
  dsimp only
  rw [declarations_cons (declaration_tokens htokens hg.declaredTokens p₄ p₅ _),
    declarations_cons (declaration_channels hchannels hg.channels p₆ p₇ _),
    declarations_cons (declaration_literals hg.parserLiterals (by simpa using hg.nodup_parserLiterals) hliterals p₈ p₉ q
      rules)]
  obtain ⟨found, hfound, hlines⟩ := @declarations_rules last []
    ⟨g.name, g.declaredTokens, g.channels, g.parserLiterals.reverse, []⟩ g.rules hg.rules (by simpa using hg.nodup_names)
    rules hrules
  refine ⟨found, ?_, ?_⟩
  · simpa using hfound
  · simpa using hlines

/-! ## Texts -/

theorem Symbol.exists_hasText_mark {mark : Symbol} (h : mark ∈ markTexts.map Prod.fst) : ∃ w, mark.HasText w := by
  obtain ⟨⟨mark, c, after?⟩, hmem, rfl⟩ := List.mem_map.mp h
  exact ⟨_, .mark hmem⟩

theorem hasText_nameSymbol {name : String} (h : IsIdentifier name) : (nameSymbol name).HasText name.toList := by
  obtain ⟨hname, c, hhead, hc⟩ := h
  obtain ⟨word, hword⟩ : ∃ word, name.toList = c :: word := List.head?_eq_some_iff.mp hhead
  have hsymbol : nameSymbol name = wordSymbol c (c :: word) := by
    unfold nameSymbol wordSymbol
    rw [← hword, hhead, String.ofList_toList]
    rfl
  have hall : ∀ d ∈ word, isNameChar d = true := fun d hd => hname d (hword ▸ List.mem_cons_of_mem c hd)
  rw [hsymbol, hword]
  exact .word hc hall

theorem exists_hasText_tokenName {name : String} (h : IsTokenName name) : ∃ w, (Symbol.tokenName name).HasText w := by
  obtain ⟨hname, c, hhead, hc⟩ := h
  have hsymbol : nameSymbol name = .tokenName name := by
    unfold nameSymbol
    rw [hhead, Option.any_some, if_pos hc]
  have halphabetic : (Text.isAlphabetic c || c = '_') = true := by rw [Text.isAlphabetic_of_isUppercase hc, Bool.true_or]
  exact ⟨_, hsymbol ▸ hasText_nameSymbol ⟨hname, c, hhead, halphabetic⟩⟩

/-- Whether a text is a word that begins with no uppercase letter. -/
def isWord (text : String) : Bool :=
  match text.toList with
  | c :: rest => !Text.isUppercase c && (Text.isAlphabetic c || c = '_') && rest.all isNameChar
  | [] => false

theorem exists_hasText_ruleName {word : String} (h : isWord word = true) : ∃ w, (Symbol.ruleName word).HasText w := by
  unfold isWord at h
  split at h
  · next c rest heq =>
    obtain ⟨⟨hc, hletter⟩, hrest⟩ : (Text.isUppercase c = false ∧ (Text.isAlphabetic c || c = '_') = true) ∧
        rest.all isNameChar = true := by simpa using h
    have hsymbol : wordSymbol c (c :: rest) = .ruleName word := by
      unfold wordSymbol
      rw [hc, if_neg Bool.false_ne_true, ← heq, String.ofList_toList]
    exact ⟨_, hsymbol ▸ Symbol.HasText.word hletter (List.all_eq_true.mp hrest)⟩
  · cases h

mutual

/-- All symbols of an element can be spelled. -/
theorem exists_hasText_element : ∀ e : Element, e.WellFormed → ∀ s ∈ e.symbols, ∃ w, s.HasText w
  | .literal text, _ => by
    rw [Element.symbols, List.forall_mem_singleton]
    exact Symbol.exists_hasText_literal text
  | .set negated items, hwf => by
    rw [Element.WellFormed] at hwf
    rw [Element.symbols]
    have hset := Symbol.exists_hasText_set hwf
    cases negated with
    | false => exact List.forall_mem_singleton.mpr hset
    | true => exact List.forall_mem_cons.mpr ⟨Symbol.exists_hasText_mark (by decide), List.forall_mem_singleton.mpr hset⟩
  | .any, _ => by
    rw [Element.symbols, List.forall_mem_singleton]
    exact Symbol.exists_hasText_mark (by decide)
  | .reference name, hwf => by
    rw [Element.WellFormed] at hwf
    rw [Element.symbols, List.forall_mem_singleton]
    exact exists_hasText_tokenName hwf.1
  | .group alternatives, hwf => by
    rw [Element.WellFormed] at hwf
    rw [Element.symbols, List.forall_mem_cons, List.forall_mem_append, List.forall_mem_singleton]
    exact ⟨Symbol.exists_hasText_mark (by decide), exists_hasText_choice [] (by simp) alternatives hwf.2,
      Symbol.exists_hasText_mark (by decide)⟩
  | .repeated quantifier greedy e, hwf => by
    rw [Element.WellFormed] at hwf
    rw [Element.symbols, List.forall_mem_append, List.forall_mem_cons]
    refine ⟨exists_hasText_element e hwf.2, Symbol.exists_hasText_mark (by cases quantifier <;> decide), ?_⟩
    cases greedy with
    | false => exact List.forall_mem_singleton.mpr (Symbol.exists_hasText_mark (by decide))
    | true => exact List.forall_mem_nil _

/-- All symbols of a sequence can be spelled. -/
theorem exists_hasText_sequence : ∀ es : List Element, SequenceWellFormed es → ∀ s ∈ sequenceSymbols es, ∃ w, s.HasText w
  | [], _ => by
    rw [sequenceSymbols]
    exact List.forall_mem_nil _
  | e :: es, hwf => by
    rw [SequenceWellFormed] at hwf
    rw [sequenceSymbols, List.forall_mem_append]
    exact ⟨exists_hasText_element e hwf.1, exists_hasText_sequence es hwf.2⟩

/-- All symbols of alternatives can be spelled, if those after each of them can. -/
theorem exists_hasText_choice (after : List Symbol) (hafter : ∀ s ∈ after, ∃ w, s.HasText w) :
    ∀ alternatives : List (List Element), ChoiceWellFormed alternatives →
    ∀ s ∈ choiceSymbols after alternatives, ∃ w, s.HasText w
  | [], _ => by
    rw [choiceSymbols]
    exact List.forall_mem_nil _
  | [es], hwf => by
    rw [ChoiceWellFormed] at hwf
    rw [choiceSymbols, List.forall_mem_append]
    exact ⟨exists_hasText_sequence es hwf.1, hafter⟩
  | es :: es' :: alternatives, hwf => by
    rw [ChoiceWellFormed] at hwf
    rw [choiceSymbols, List.forall_mem_append, List.forall_mem_append, List.forall_mem_cons]
    · exact ⟨exists_hasText_sequence es hwf.1, hafter, Symbol.exists_hasText_mark (by decide),
        exists_hasText_choice after hafter (es' :: alternatives) hwf.2⟩
    · simp

end

theorem exists_hasText_action {action : Action} (h : ∀ channel, action = .emit channel → channel ≤ maxInteger) :
    ∀ s ∈ action.symbols, ∃ w, s.HasText w := by
  have hmark {mark : Symbol} (h : mark ∈ markTexts.map Prod.fst) := Symbol.exists_hasText_mark h
  cases action with
  | skip =>
    rw [Action.symbols, List.forall_mem_cons, List.forall_mem_singleton]
    exact ⟨hmark (by decide), exists_hasText_ruleName (by decide +kernel)⟩
  | emit channel =>
    rw [Action.symbols]
    by_cases hdefault : channel = defaultChannel
    · rw [if_pos hdefault]
      exact List.forall_mem_nil _
    · rw [if_neg hdefault, List.forall_mem_cons, List.forall_mem_cons, List.forall_mem_cons, List.forall_mem_cons,
        List.forall_mem_singleton]
      exact ⟨hmark (by decide), exists_hasText_ruleName (by decide +kernel), hmark (by decide),
        Symbol.exists_hasText_integer (h channel rfl), hmark (by decide)⟩

theorem exists_hasText_rule {r : Rule} (hwf : r.WellFormed)
    (h : ∀ channel, r.action = .emit channel → channel ≤ maxInteger) : ∀ s ∈ r.symbols, ∃ w, s.HasText w := by
  have hbody : ∀ s ∈ r.body, ∃ w, s.HasText w := by
    unfold Rule.body
    rw [List.forall_mem_cons, List.forall_mem_cons, List.forall_mem_append, List.forall_mem_singleton]
    exact ⟨exists_hasText_tokenName hwf.name, Symbol.exists_hasText_mark (by decide),
      exists_hasText_choice _ (exists_hasText_action h) _ hwf.alternatives, Symbol.exists_hasText_mark (by decide)⟩
  unfold Rule.symbols
  split
  · exact List.forall_mem_cons.mpr ⟨exists_hasText_ruleName (by decide +kernel), hbody⟩
  · exact hbody

/-- A grammar that can be printed has a text. -/
theorem exists_prints {g : Grammar} (hg : g.Printable) : ∃ text, g.Prints text := by
  obtain ⟨tokens, htokens⟩ := exists_lists g.declaredTokens
  obtain ⟨channels, hchannels⟩ := exists_lists g.channels
  have hliterals : ∀ s ∈ g.parserLiterals.map Symbol.literal, ∃ w, s.HasText w := by
    intro s hs
    obtain ⟨text, -, rfl⟩ := List.mem_map.mp hs
    exact Symbol.exists_hasText_literal text
  have hrules : ∀ s ∈ g.rules.flatMap Rule.symbols, ∃ w, s.HasText w := by
    intro s hs
    obtain ⟨r, hr, hs⟩ := List.mem_flatMap.mp hs
    exact exists_hasText_rule (hg.rules r hr) (hg.channel_le r hr) s hs
  have hsymbols : ∀ s ∈ g.printedSymbols tokens channels, ∃ w, s.HasText w := by
    unfold printedSymbols
    simp only [List.forall_mem_cons, List.forall_mem_append]
    refine ⟨exists_hasText_ruleName (by decide +kernel), ⟨_, hasText_nameSymbol hg.name⟩,
      Symbol.exists_hasText_mark (by decide), exists_hasText_ruleName (by decide +kernel),
      ⟨_, .action (isPlain_of_lists htokens hg.declaredTokens)⟩, exists_hasText_ruleName (by decide +kernel),
      ⟨_, .action (isPlain_of_lists hchannels hg.channels)⟩, exists_hasText_ruleName (by decide +kernel),
      Symbol.exists_hasText_mark (by decide), hliterals, Symbol.exists_hasText_mark (by decide), hrules⟩
  obtain ⟨text, htext⟩ := exists_spells hsymbols
  exact ⟨String.ofList (' ' :: text), tokens, channels, htokens, hchannels, by rwa [String.toList_ofList]⟩

/-- **Printing and reading.** A grammar that can be printed has texts, and each of them is read as the grammar, except for
the lines of its rules. -/
theorem parse_of_prints {g : Grammar} (hg : g.Printable) : (∃ text, g.Prints text) ∧
    ∀ text, g.Prints text → ∃ found, parse text = .ok found ∧ found.withoutLines = g.withoutLines := by
  refine ⟨exists_prints hg, fun text htext => ?_⟩
  obtain ⟨tokens, channels, htokens, hchannels, hspells⟩ := htext
  obtain ⟨placed, hplaced, hfst⟩ := exists_symbols_of_spells hspells
  obtain ⟨found, hfound, hlines⟩ := ofSymbols_printedSymbols hg htokens hchannels hfst
  refine ⟨found, ?_, hlines⟩
  unfold parse read
  rw [hplaced]
  dsimp only
  rw [hfound]

theorem parse_of_prints_quotations : quotations.Printable ∧ ∃ text found,
    quotations.Prints text ∧ parse text = .ok found ∧ found.withoutLines = quotations.withoutLines := by
  obtain ⟨⟨text, htext⟩, hread⟩ := parse_of_prints printable_quotations
  obtain ⟨found, hfound, hlines⟩ := hread text htext
  exact ⟨printable_quotations, text, found, htext, hfound, hlines⟩

end Grammar

end Lexeme
