import Lexeme.Proofs.Tokenizer
import Mathlib.Data.List.Forall2

/-!
# What a text comes to

A text that is cut into tokens has a record for each visible token, unless a token without a name comes before the limit,
or there are more visible tokens than the limit allows (`Token.Outcome`). The limit is looked at before the name: the
first token beyond it is not classified any more, so among the tokens up to the limit the first without a name decides.

`recordsFrom` takes tokens with names up to the limit (`exists_recordsFrom_append`), and what comes then ends the work.
Hence there is one outcome, and it is the one that is told (`records_eq_iff_outcome`); hidden tokens have no part in it.
-/

namespace Lexeme

namespace Token

/-- Whether a token cannot be called by anything: its category has no symbol, and its text is neither a legal name nor
a literal with a substitute. -/
def LacksName (v : Vocabulary) (table : Substitutions) (t : Token) : Prop :=
  v.symbol? t.category = none ∧ Terminal.isLegal t.text = false ∧ table.lookup? t.text = none

instance (v : Vocabulary) (table : Substitutions) (t : Token) : Decidable (t.LacksName v table) :=
  inferInstanceAs (Decidable (_ ∧ _ ∧ _))

/-- What a token is called. -/
inductive IsCalled (v : Vocabulary) (table : Substitutions) (t : Token) : String → Prop
  | symbol {name : String} (h : v.symbol? t.category = some name) : IsCalled v table t name
  | literal (hsymbol : v.symbol? t.category = none) (hlegal : Terminal.isLegal t.text = true) :
      IsCalled v table t ("Lit_" ++ t.text)
  | substitute {name : String} (hsymbol : v.symbol? t.category = none) (hlegal : Terminal.isLegal t.text = false)
      (h : table.lookup? t.text = some name) : IsCalled v table t ("Lit_" ++ name)

/-- Whether a record is that of a token: it has the text of the token and what the token is called. -/
def HasRecord (v : Vocabulary) (table : Substitutions) (t : Token) (r : Record) : Prop :=
  r.literal = t.text ∧ t.IsCalled v table r.terminal

/-- What becomes of visible tokens. -/
inductive Outcome (v : Vocabulary) (table : Substitutions) (shown : List Token) :
    Except TokenizingError (List Record) → Prop
  | nameless {before after : List Token} {t : Token} (hshown : shown = before ++ t :: after)
      (hlimit : before.length < Tokenizer.recordLimit) (hbefore : ∀ u ∈ before, ¬u.LacksName v table)
      (h : t.LacksName v table) : Outcome v table shown (.error (.substitution (.missingEntry t.text)))
  | tooMany (hlimit : Tokenizer.recordLimit < shown.length)
      (h : ∀ u ∈ shown.take Tokenizer.recordLimit, ¬u.LacksName v table) :
      Outcome v table shown (.error (.lexing (.tooManyTokens Tokenizer.recordLimit)))
  | records {records : List Record} (hlimit : shown.length ≤ Tokenizer.recordLimit)
      (h : List.Forall₂ (HasRecord v table) shown records) : Outcome v table shown (.ok records)

/-! ## One token -/

variable {v : Vocabulary} {table : Substitutions} {t : Token}

theorem record_of_lacksName (h : t.LacksName v table) : t.record v table = .error (.missingEntry t.text) :=
  record_eq_error_iff.mpr ⟨h.1, Substitutions.normalized_eq_error_iff.mpr ⟨rfl, h.2⟩⟩

theorem record_eq_ok_iff_hasRecord {r : Record} : t.record v table = .ok r ↔ t.HasRecord v table r := by
  obtain ⟨terminal, literal⟩ := r
  rw [record_eq_ok_iff]
  refine and_congr_right fun _ => ⟨?_, ?_⟩
  · rintro (hsymbol | ⟨hnone, name, hname, rfl⟩)
    · exact .symbol hsymbol
    · rcases Substitutions.normalized_eq_ok_iff.mp hname with ⟨hlegal, rfl⟩ | ⟨hlegal, hlookup⟩
      · exact .literal hnone hlegal
      · exact .substitute hnone hlegal hlookup
  · rintro (hsymbol | ⟨hnone, hlegal⟩ | ⟨hnone, hlegal, hlookup⟩)
    · exact .inl hsymbol
    · exact .inr ⟨hnone, _, Substitutions.normalized_eq_ok_iff.mpr (.inl ⟨hlegal, rfl⟩), rfl⟩
    · exact .inr ⟨hnone, _, Substitutions.normalized_eq_ok_iff.mpr (.inr ⟨hlegal, hlookup⟩), rfl⟩

/-- A token has a record unless it lacks a name. -/
theorem exists_hasRecord (h : ¬t.LacksName v table) : ∃ r, t.HasRecord v table r := by
  cases hrecord : t.record v table with
  | ok r => exact ⟨r, record_eq_ok_iff_hasRecord.mp hrecord⟩
  | error e =>
    obtain ⟨hnone, hnormalized⟩ := record_eq_error_iff.mp hrecord
    exact absurd ⟨hnone, (Substitutions.normalized_eq_error_iff.mp hnormalized).2⟩ h

/-! ## All tokens -/

/-- The tokens up to the limit have names, or one of them is the first without. -/
theorem lacksName_cases (v : Vocabulary) (table : Substitutions) (limit : Nat) (shown : List Token) :
    (∀ u ∈ shown.take limit, ¬u.LacksName v table) ∨
      ∃ before t after, shown = before ++ t :: after ∧ before.length < limit ∧ (∀ u ∈ before, ¬u.LacksName v table) ∧
        t.LacksName v table := by
  cases hfind : (shown.take limit).find? (LacksName v table ·) with
  | none => exact .inl fun u hu => by simpa using List.find?_eq_none.mp hfind u hu
  | some t =>
    obtain ⟨ht, before, after, htake, hbefore⟩ := List.find?_eq_some_iff_append.mp hfind
    refine .inr ⟨before, t, after ++ shown.drop limit, ?_, ?_, by simpa using hbefore, by simpa using ht⟩
    · rw [← List.cons_append, ← List.append_assoc, ← htake, List.take_append_drop]
    · have hlength := congrArg List.length htake
      simp only [List.length_take, List.length_append, List.length_cons] at hlength
      omega

theorem exists_hasRecords {shown : List Token} (h : ∀ u ∈ shown, ¬u.LacksName v table) :
    ∃ records, List.Forall₂ (HasRecord v table) shown records := by
  induction shown with
  | nil => exact ⟨[], .nil⟩
  | cons t shown ih =>
    obtain ⟨hfirst, hrest⟩ := List.forall_mem_cons.mp h
    obtain ⟨r, hr⟩ := exists_hasRecord hfirst
    obtain ⟨records, hrecords⟩ := ih hrest
    exact ⟨r :: records, .cons hr hrecords⟩

/-- There is always an outcome. -/
theorem exists_outcome (v : Vocabulary) (table : Substitutions) (shown : List Token) :
    ∃ result, Outcome v table shown result := by
  rcases lacksName_cases v table Tokenizer.recordLimit shown with hnames | ⟨before, t, after, hshown, hlimit, hbefore, h⟩
  · rcases Nat.lt_or_ge Tokenizer.recordLimit shown.length with hmany | hfew
    · exact ⟨_, .tooMany hmany hnames⟩
    · rw [List.take_of_length_le hfew] at hnames
      obtain ⟨records, hrecords⟩ := exists_hasRecords hnames
      exact ⟨_, .records hfew hrecords⟩
  · exact ⟨_, .nameless hshown hlimit hbefore h⟩

end Token

namespace Tokenizer

open Token (LacksName HasRecord Outcome)

variable {t : Tokenizer}

/-- Tokens get their records as long as the limit is not reached. -/
theorem exists_recordsFrom_append {first : List Token} {records : List Record}
    (h : List.Forall₂ (HasRecord t.engine.vocabulary t.table) first records) (rest : List Token) (count : Nat)
    (hlimit : count + first.length ≤ recordLimit) (done : List Record) (log : Log) :
    ∃ after, (t.recordsFrom count done (first ++ rest)).run log =
      (t.recordsFrom (count + first.length) (records.reverse ++ done) rest).run after := by
  induction h generalizing count done log with
  | nil => exact ⟨log, rfl⟩
  | @cons token r first records hr _ ih =>
    rw [List.length_cons] at hlimit
    obtain ⟨after, hrun⟩ := ih (count + 1) (by omega) (r :: done)
      ((token.classify t.engine.vocabulary t.table).run log).2
    have hclassify : (token.classify t.engine.vocabulary t.table).run log = (.ok r, _) :=
      Prod.ext ((Token.classify_run _ _ _ _).trans (Token.record_eq_ok_iff_hasRecord.mpr hr)) rfl
    refine ⟨after, ?_⟩
    rw [List.cons_append, recordsFrom, if_neg (by omega), StateT.run_bind, hclassify]
    refine hrun.trans ?_
    rw [List.length_cons, List.reverse_cons, List.append_assoc, List.singleton_append, Nat.add_right_comm, Nat.add_assoc]

/-- Tokens come to what is told of them. -/
theorem recordsFrom_of_outcome {shown : List Token} {result : Except TokenizingError (List Record)}
    (h : Outcome t.engine.vocabulary t.table shown result) (log : Log) :
    ((t.recordsFrom 0 [] shown).run log).1 = result := by
  cases h with
  | @nameless before after token hshown hlimit hbefore hnone =>
    obtain ⟨records, hrecords⟩ := Token.exists_hasRecords hbefore
    obtain ⟨mid, hrun⟩ := exists_recordsFrom_append hrecords (token :: after) 0 (by omega) [] log
    rw [hshown, hrun, recordsFrom, if_neg (by omega), Logged.run_bind_fst, Token.classify_run, Token.record_of_lacksName hnone]
    rfl
  | tooMany hlimit hnames =>
    have hlength : (shown.take recordLimit).length = recordLimit := List.length_take_of_le (Nat.le_of_lt hlimit)
    obtain ⟨token, rest, hrest⟩ : ∃ token rest, shown.drop recordLimit = token :: rest :=
      List.exists_cons_of_ne_nil fun hnil => absurd (List.drop_eq_nil_iff.mp hnil) (by omega)
    obtain ⟨records, hrecords⟩ := Token.exists_hasRecords hnames
    obtain ⟨mid, hrun⟩ := exists_recordsFrom_append hrecords (token :: rest) 0 (by omega) [] log
    rw [← hrest, List.take_append_drop, hlength, Nat.zero_add, hrest, recordsFrom, if_pos (Nat.le_refl _)] at hrun
    rw [hrun]
    rfl
  | @records records hlimit hrecords =>
    obtain ⟨mid, hrun⟩ := exists_recordsFrom_append hrecords [] 0 (by omega) [] log
    rw [List.append_nil, List.append_nil, recordsFrom, List.reverse_reverse] at hrun
    rw [hrun]
    rfl

/-- What is reported at the end changes nothing. -/
theorem records_run_fst {text : String} {tokens : List Token} (h : t.engine.tokens text = .ok tokens) (log : Log) :
    ((t.records text).run log).1 = ((t.recordsFrom 0 [] (tokens.filter Token.isVisible)).run log).1 := by
  unfold records
  rw [h]
  dsimp only
  rw [Logged.run_bind_fst]
  cases ((t.recordsFrom 0 [] (tokens.filter Token.isVisible)).run log).1 <;> rfl

/-- There is no other outcome than the one that is told. -/
theorem records_eq_iff_outcome {text : String} {tokens : List Token} (h : t.engine.tokens text = .ok tokens) {log : Log}
    {result : Except TokenizingError (List Record)} :
    ((t.records text).run log).1 = result ↔
      Outcome t.engine.vocabulary t.table (tokens.filter Token.isVisible) result := by
  rw [records_run_fst h]
  constructor
  · rintro rfl
    obtain ⟨result, houtcome⟩ := Token.exists_outcome t.engine.vocabulary t.table (tokens.filter Token.isVisible)
    rwa [recordsFrom_of_outcome houtcome]
  · exact fun houtcome => recordsFrom_of_outcome houtcome log

/-- A text that cannot be cut has no records for that reason. Otherwise it comes to what is told of its visible tokens, and
another text, with another engine of the same vocabulary, comes to the same if its visible tokens are the same. -/
theorem records_outcome (t : Tokenizer) (text : String) (log : Log) :
    (∀ e, t.engine.tokens text = .error e → ((t.records text).run log).1 = .error (.lexing e)) ∧
      ∀ tokens, t.engine.tokens text = .ok tokens →
        (∀ result, ((t.records text).run log).1 = result ↔
          Outcome t.engine.vocabulary t.table (tokens.filter Token.isVisible) result) ∧
        ∀ (other : Tokenizer) (text' : String) (tokens' : List Token) (log' : Log),
          other.engine.vocabulary = t.engine.vocabulary → other.table = t.table → other.engine.tokens text' = .ok tokens' →
          tokens'.filter Token.isVisible = tokens.filter Token.isVisible →
          ((other.records text').run log').1 = ((t.records text).run log).1 := by
  refine ⟨fun e h => ?_, fun tokens h => ⟨fun result => records_eq_iff_outcome h, ?_⟩⟩
  · unfold records
    rw [h]
    rfl
  · intro other text' tokens' log' hvocabulary htable h' hvisible
    rw [records_eq_iff_outcome h', hvocabulary, htable, hvisible]
    exact (records_eq_iff_outcome h).mp rfl

/-- Cuts no text but one into a name and a plus sign that are seen, after what is given. -/
def signs (hidden : List Token) : Tokenizer where
  engine.name := "signs"
  engine.vocabulary := .defineAll .empty [⟨none, some "NAME"⟩, ⟨some "+", none⟩]
  engine.tokens text :=
    if text = "a+" then .ok (hidden ++ [⟨"a", 1, defaultChannel, .start⟩, ⟨"+", 2, defaultChannel, .start⟩])
    else .error (.unterminatedString .start)
  table := ⟨[]⟩

/-- A plus sign that is seen has no name, and it does not matter whether another one is hidden before it. -/
theorem records_outcome_signs :
    (((signs []).records "").run (.empty .error)).1 = .error (.lexing (.unterminatedString .start)) ∧
      (((signs [⟨"+", 2, hiddenChannel, .start⟩]).records "a+").run (.empty .error)).1 =
        .error (.substitution (.missingEntry "+")) ∧
      (((signs []).records "a+").run (.empty .error)).1 =
        (((signs [⟨"+", 2, hiddenChannel, .start⟩]).records "a+").run (.empty .error)).1 := by
  obtain ⟨-, hshown⟩ := records_outcome (signs [⟨"+", 2, hiddenChannel, .start⟩]) "a+" (.empty .error)
  obtain ⟨hiff, hother⟩ := hshown _ rfl
  refine ⟨(records_outcome (signs []) "" (.empty .error)).1 _ rfl, (hiff _).mpr ?_, hother (signs []) "a+" _ _ rfl rfl rfl rfl⟩
  have hname : ∀ u ∈ [(⟨"a", 1, defaultChannel, .start⟩ : Token)], ¬u.LacksName (signs []).engine.vocabulary ⟨[]⟩ := by decide
  exact @Outcome.nameless _ _ _ [_] [] ⟨"+", 2, defaultChannel, .start⟩ rfl (by decide) hname (by decide)

end Tokenizer

end Lexeme
