import Lexeme.Grammar.Lexer
import Lexeme.Proofs.Grammar.Expander
import Lexeme.Proofs.Matcher
import Mathlib.Data.List.Permutation

/-!
# Lexers that are made from sources

What is reported to a log has no influence on the lexer (`lexerOfSource_eq_ok_iff`). A lexer has a matcher for each
literal of the parser that no rule stands for and for each rule that is not a fragment, and the categories of the
matchers count up (`map_category_matchersFrom`). So the results on maximal munch hold for all lexers
(`lexerOfSource_munchesMaximally`).
-/

namespace Lexeme.Grammar

/-! ## Work that reports -/

/-- Reporting what was read over leaves the grammar as it is. -/
theorem load_run_fst (source : String) (log : Log) : ((load source).run log).1 = parse source := rfl

/-- The error that a matcher is refused with, if it is. -/
def refusedError? (m : Matcher) : Option Error := (refusal? m).map (.invalidPattern m.label)

/-- The first refused matcher is found whatever is reported on the way. -/
theorem findRefused_run_fst (matchers : List Matcher) (log : Log) :
    ((findRefused matchers).run log).1 = matchers.findSome? refusedError? := by
  induction matchers generalizing log with
  | nil => rfl
  | cons m rest ih =>
    unfold findRefused
    rw [List.findSome?_cons]
    cases h : refusal? m with
    | some reason =>
      rw [show refusedError? m = some (.invalidPattern m.label reason) by simp [refusedError?, h]]
      rfl
    | none =>
      rw [show refusedError? m = none by simp [refusedError?, h]]
      exact ih _

theorem assemble_run_fst (g : Grammar) (matchers : List Matcher) (log : Log) :
    ((g.assemble matchers).run log).1 =
      match matchers.findSome? refusedError? with
      | some error => .error error
      | none =>
        if Pattern.areTooLarge (matchers.map Matcher.pattern) then .error (.invalidPattern g.name "too large together")
        else .ok ⟨s!"grammar {g.name}", g.vocabulary, matchers⟩ := by
  unfold assemble
  rw [Logged.run_bind_fst, findRefused_run_fst]
  cases matchers.findSome? refusedError? with
  | some error => rfl
  | none =>
    dsimp only
    split <;> rfl

/-- Whether a grammar is accepted, and its matchers are these. -/
structure Accepted (g : Grammar) (matchers : List Matcher) : Prop where
  count_le : g.implicitLiterals.length + g.rules.length ≤ ruleLimit
  matchers_eq : g.matchers = .ok matchers
  refusal_eq_none : ∀ m ∈ matchers, refusal? m = none
  not_tooLarge : Pattern.areTooLarge (matchers.map Matcher.pattern) = false

theorem findSome?_refusedError?_eq_none_iff {matchers : List Matcher} :
    matchers.findSome? refusedError? = none ↔ ∀ m ∈ matchers, refusal? m = none := by
  simp [refusedError?]

theorem lexer_eq_ok_iff {g : Grammar} {log : Log} {lexer : Lexer} :
    (g.lexer.run log).1 = .ok lexer ↔
      ∃ matchers, Accepted g matchers ∧ lexer = ⟨s!"grammar {g.name}", g.vocabulary, matchers⟩ := by
  unfold Grammar.lexer
  constructor
  · intro h
    dsimp only at h
    split at h
    · cases h
    · next hcount =>
      cases hmatchers : g.matchers with
      | error e => rw [hmatchers] at h; cases h
      | ok matchers =>
        rw [hmatchers] at h
        change ((g.assemble matchers).run log).1 = _ at h
        rw [assemble_run_fst] at h
        split at h
        · cases h
        · next hrefused =>
          split at h
          · cases h
          · next hlarge =>
            cases h
            exact ⟨matchers, ⟨Nat.le_of_not_lt hcount, hmatchers, findSome?_refusedError?_eq_none_iff.mp hrefused,
              Bool.eq_false_iff.mpr hlarge⟩, rfl⟩
  · rintro ⟨matchers, ⟨hcount, hmatchers, hrefused, hlarge⟩, rfl⟩
    dsimp only
    rw [if_neg (Nat.not_lt.mpr hcount), hmatchers]
    change ((g.assemble matchers).run log).1 = _
    rw [assemble_run_fst, findSome?_refusedError?_eq_none_iff.mpr hrefused, hlarge]
    rfl

/-- A source has a lexer exactly when its grammar is accepted. -/
theorem lexerOfSource_eq_ok_iff {source : String} {log : Log} {lexer : Lexer} :
    ((lexerOfSource source).run log).1 = .ok lexer ↔
      ∃ g matchers, parse source = .ok g ∧ Accepted g matchers ∧
        lexer = ⟨s!"grammar {g.name}", g.vocabulary, matchers⟩ := by
  unfold lexerOfSource
  rw [Logged.run_bind_fst, load_run_fst]
  cases parse source with
  | error e =>
    constructor
    · intro h
      cases h
    · rintro ⟨g, matchers, h, -⟩
      cases h
  | ok g =>
    constructor
    · intro h
      obtain ⟨matchers, haccepted, hlexer⟩ := lexer_eq_ok_iff.mp h
      exact ⟨g, matchers, rfl, haccepted, hlexer⟩
    · rintro ⟨found, matchers, hg, haccepted, hlexer⟩
      cases hg
      exact lexer_eq_ok_iff.mpr ⟨matchers, haccepted, hlexer⟩

/-! ## Matchers -/

/-- What a matcher was made of. -/
def recipe (m : Matcher) : Recipe := (m.label, m.action, m.pattern)

/-- A matcher is given by its category and what it was made of. -/
theorem eq_of_recipe_eq {m m' : Matcher} (h : (m.category, recipe m) = (m'.category, recipe m')) : m = m' := by
  obtain ⟨label, category, action, pattern, machine, rfl⟩ := m
  obtain ⟨label', category', action', pattern', machine', rfl⟩ := m'
  obtain ⟨rfl, rfl, rfl, rfl⟩ : category = category' ∧ label = label' ∧ action = action' ∧ pattern = pattern' := by
    simpa [recipe] using h
  rfl

/-- The matcher at a place is that of the recipe there, and its category counts the place. -/
theorem getElem?_matchersFrom (category : Nat) (recipes : List Recipe) (i : Nat) :
    (matchersFrom category recipes)[i]? =
      recipes[i]?.map fun (label, action, pattern) => .ofPattern label (category + i) action pattern := by
  induction recipes generalizing category i with
  | nil => simp [matchersFrom]
  | cons r rest ih =>
    cases i with
    | zero => rfl
    | succ i => simp [matchersFrom, ih, Nat.add_comm, Nat.add_left_comm]

theorem map_recipe_matchersFrom (category : Nat) (recipes : List Recipe) :
    (matchersFrom category recipes).map recipe = recipes := by
  induction recipes generalizing category with
  | nil => rfl
  | cons r rest ih => exact congrArg (r :: ·) (ih (category + 1))

/-- The categories of the matchers count up. -/
theorem map_category_matchersFrom (category : Nat) (recipes : List Recipe) :
    (matchersFrom category recipes).map Matcher.category = List.range' category recipes.length := by
  induction recipes generalizing category with
  | nil => rfl
  | cons r rest ih => exact congrArg (category :: ·) (ih (category + 1))

theorem ascending_matchersFrom (category : Nat) (recipes : List Recipe) :
    Matcher.Ascending (matchersFrom category recipes) := by
  refine List.pairwise_map.mp ?_
  rw [map_category_matchersFrom]
  exact List.pairwise_lt_range'

/-- Work that pairs every member of a list with a result leaves the members as they are. -/
theorem RunAll.map_fst {α β : Type} {f : α → Expander (α × β)}
    (hf : ∀ a found b after, (f a).run found = (.ok b, after) → b.1 = a) {as : List α} {bs : List (α × β)}
    {found after : Found} (h : RunAll f as found bs after) : bs.map Prod.fst = as := by
  induction h with
  | nil found => rfl
  | cons hhead _ ih => rw [List.map_cons, ih, hf _ _ _ _ hhead]

/-- Every rule has a pattern, also a fragment. -/
theorem map_fst_of_patterns {g : Grammar} {patterns : List (Rule × Pattern)} (h : g.patterns = .ok patterns) :
    patterns.map Prod.fst = g.rules := by
  refine RunAll.map_fst (fun rule found b after hrun => ?_) (runAll_of_mapM (Prod.ext h rfl))
  obtain ⟨pattern, between, -, hpair⟩ := bind_run_eq_ok_iff.mp hrun
  rw [pure_run_eq_ok_iff] at hpair
  rw [← hpair.1]

/-- The matchers of a grammar are those of its literals and of its rules that are not fragments, numbered after the
tokens that no rule describes. -/
theorem matchers_eq_ok_iff {g : Grammar} {matchers : List Matcher} :
    g.matchers = .ok matchers ↔
      ∃ patterns, g.patterns = .ok patterns ∧ matchers = matchersFrom (g.bareTokens.length + 1) (g.recipes patterns) := by
  unfold Grammar.matchers
  cases g.patterns with
  | error e =>
    constructor
    · intro h
      cases h
    · rintro ⟨patterns, h, -⟩
      cases h
  | ok patterns =>
    constructor
    · intro h
      cases h
      exact ⟨patterns, rfl, rfl⟩
    · rintro ⟨found, hfound, rfl⟩
      cases hfound
      rfl

/-! ## A lexer for words -/

namespace Words

/-- A source with a literal of the parser, a fragment, two rules with matches in common, a rule on another channel and a
rule that is skipped. -/
def source : String :=
  "grammar G; s : 'x' A ; A : B+ ; fragment B : 'b' | [0-9] ; K : 'b' ; C : '#' -> channel(HIDDEN) ; W : ' ' -> skip ;"

def literal : Matcher := .ofPattern "x" 1 (.emit 0) (.literal ['x'])

def word : Matcher :=
  .ofPattern "A" 2 (.emit 0) (.group (.repeated .oneOrMore true (.group (.alt (.literal ['b']) (.set false [.range '0' '9'])))))

def letter : Matcher := .ofPattern "K" 3 (.emit 0) (.group (.literal ['b']))

def mark : Matcher := .ofPattern "C" 4 (.emit 1) (.group (.literal ['#']))

def blank : Matcher := .ofPattern "W" 5 .skip (.group (.literal [' ']))

/-- The matchers of the lexer of the source. -/
def matchers : List Matcher := [literal, word, letter, mark, blank]

theorem wins {s : List Char} {n : Nat} {m : Matcher} (h : Matcher.best? matchers s = some (n, m)) :
    Matcher.Wins matchers s n m :=
  (Matcher.best?_eq_some_iff (by unfold Matcher.Ascending; decide)).mp h

theorem exists_lexer : ∃ lexer, ((lexerOfSource source).run (Log.empty .error)).1 = .ok lexer ∧ lexer.matchers = matchers := by
  have hok : ((lexerOfSource source).run (Log.empty .error)).1.toOption.map
      (fun lexer => lexer.matchers.map fun m => (m.category, recipe m)) =
        some (matchers.map fun m => (m.category, recipe m)) := by decide +kernel
  cases h : ((lexerOfSource source).run (Log.empty .error)).1 with
  | error e => rw [h] at hok; cases hok
  | ok lexer =>
    rw [h] at hok
    exact ⟨lexer, rfl, (List.map_inj_right fun m m' => eq_of_recipe_eq).mp (Option.some.inj hok)⟩

end Words

/-! ## Tokens -/

/-- What it means for the lexer of a source to cut every text at the longest match. -/
structure Lexer.MunchesMaximally (source : String) (lexer : Lexer) : Prop where
  /-- There is a matcher for each literal that no rule stands for and for each rule that is not a fragment, and the
  categories count up. -/
  matchers_eq : ∃ g patterns, parse source = .ok g ∧ g.patterns = .ok patterns ∧ patterns.map Prod.fst = g.rules ∧
    lexer.matchers.map recipe = g.recipes patterns ∧
    lexer.matchers.map Matcher.category = List.range' (g.bareTokens.length + 1) lexer.matchers.length
  /-- Asking first which matchers match at all changes nothing. -/
  best?_eq_foldl : ∀ s, Matcher.best? lexer.matchers s = lexer.matchers.foldl (Matcher.better s) none
  /-- A text has tokens exactly when it consists of segments that win at their places, and they are one for each segment
  whose winner emits: its text, with the category of the winner and on its channel. Skipped segments give none. -/
  tokens_eq_ok_iff : ∀ text ts, lexer.tokens text = .ok ts ↔
    ∃ segments, Matcher.Munched lexer.matchers text.toList segments [] ∧ Matcher.Emits [] segments ts
  /-- A text has none exactly when such segments lead to a place where no match counts. -/
  tokens_eq_error_iff : ∀ text e, lexer.tokens text = .error e ↔
    ∃ segments c rest, Matcher.Munched lexer.matchers text.toList segments (c :: rest) ∧
      Matcher.Fails lexer.matchers (c :: rest) ∧
      e = .noViableAlternative (Position.start.advanceBy (Segment.joined segments)) (String.singleton c)
  /-- Segments stand one after the other and are never empty. -/
  segments_split : ∀ s segments left, Matcher.Munched lexer.matchers s segments left →
    Segment.joined segments ++ left = s ∧ ∀ segment ∈ segments, segment.text ≠ []
  /-- There is only one way to cut. -/
  segments_unique : ∀ s segments more left other, Matcher.Munched lexer.matchers s segments left →
    Matcher.Munched lexer.matchers s more other → Matcher.Stops lexer.matchers left →
    Matcher.Stops lexer.matchers other → segments = more

/-- Every lexer cuts at the longest match of all its matchers, and of several such the first wins. -/
theorem lexerOfSource_munchesMaximally {source : String} {log : Log} {lexer : Lexer}
    (h : ((lexerOfSource source).run log).1 = .ok lexer) : lexer.MunchesMaximally source := by
  obtain ⟨g, matchers, hg, haccepted, rfl⟩ := lexerOfSource_eq_ok_iff.mp h
  obtain ⟨patterns, hpatterns, rfl⟩ := matchers_eq_ok_iff.mp haccepted.matchers_eq
  have hascending := ascending_matchersFrom (g.bareTokens.length + 1) (g.recipes patterns)
  have hcategory := map_category_matchersFrom (g.bareTokens.length + 1) (g.recipes patterns)
  have hrecipe := map_recipe_matchersFrom (g.bareTokens.length + 1) (g.recipes patterns)
  have hlength := congrArg List.length hrecipe
  rw [List.length_map] at hlength
  refine
    { matchers_eq := ⟨g, patterns, hg, hpatterns, map_fst_of_patterns hpatterns, hrecipe, ?_⟩
      best?_eq_foldl := Matcher.best?_eq_foldl _
      tokens_eq_ok_iff := fun text ts => (Matcher.tokens_eq_ok_iff hascending).trans
        (exists_congr fun segments => and_congr_right fun _ => Matcher.emits_iff.symm)
      tokens_eq_error_iff := fun text e => Matcher.tokens_eq_error_iff hascending
      segments_split := fun _ _ _ hsegments => ⟨hsegments.joined_append, hsegments.ne_nil⟩
      segments_unique := ?_ }
  · rw [hcategory, ← hlength]
  · intro s segments more left other hsegments hmore hleft hother
    have hcut := (Matcher.cut_of_munched hascending hsegments hleft).symm.trans
      (Matcher.cut_of_munched hascending hmore hother)
    exact (Cut.mk.inj hcut).1

/-- What is skipped gives no token, the longer of two matches wins, and of two matches of one length that of the lower
category. -/
theorem lexerOfSource_munchesMaximally_words :
    ∃ lexer, ((lexerOfSource Words.source).run (Log.empty .error)).1 = .ok lexer ∧
      lexer.MunchesMaximally Words.source ∧
      lexer.tokens "x b #12" = .ok [⟨"x", 1, 0, ⟨0, 1, 1⟩⟩, ⟨"b", 2, 0, ⟨2, 1, 3⟩⟩, ⟨"#", 4, 1, ⟨4, 1, 5⟩⟩, ⟨"12", 2, 0, ⟨5, 1, 6⟩⟩] ∧
      lexer.tokens "b?" = .error (.noViableAlternative ⟨1, 1, 2⟩ "?") := by
  obtain ⟨lexer, hlexer, hmatchers⟩ := Words.exists_lexer
  have hmunches := lexerOfSource_munchesMaximally hlexer
  refine ⟨lexer, hlexer, hmunches, (hmunches.tokens_eq_ok_iff _ _).mpr ⟨[⟨Words.literal, ['x']⟩, ⟨Words.blank, [' ']⟩,
    ⟨Words.word, ['b']⟩, ⟨Words.blank, [' ']⟩, ⟨Words.mark, ['#']⟩, ⟨Words.word, ['1', '2']⟩], ?_, ?_⟩,
    (hmunches.tokens_eq_error_iff _ _).mpr ⟨[⟨Words.word, ['b']⟩], '?', [], ?_, ?_, ?_⟩⟩
  · rw [hmatchers]
    show Matcher.Munched _ (['x'] ++ ([' '] ++ (['b'] ++ ([' '] ++ (['#'] ++ (['1', '2'] ++ [])))))) _ _
    exact .cons (Words.wins (by cbv)) (.cons (Words.wins (by cbv)) (.cons (Words.wins (by cbv)) (.cons (Words.wins (by cbv))
      (.cons (Words.wins (by cbv)) (.cons (Words.wins (by cbv)) (.nil []))))))
  · exact .emit rfl (.skip rfl (.emit rfl (.skip rfl (.emit rfl (.emit rfl (.nil _))))))
  · rw [hmatchers]
    show Matcher.Munched _ (['b'] ++ ['?']) _ _
    exact .cons (Words.wins (by cbv)) (.nil _)
  · rw [hmatchers]
    exact (Matcher.best?_eq_none_iff (by unfold Matcher.Ascending; decide)).mp (by cbv)
  · rfl

end Lexeme.Grammar
