import Lexeme.Proofs.Substitutions
import Lexeme.Tokenizer

/-!
# The records of a text

A text that has records has one for each visible token, in the order of the tokens (`exists_tokens_of_records`). The
terminal of a record is the symbol of the token's category, or a legal name if the category has none.

Finding the records of a file is composed of reports (`Logged.Compositional.fileRecords`), so what is kept by composition
need only be shown of one report.
-/

namespace Lexeme

/-! ## Engines -/

/-- A grammar has an engine exactly when it has a lexer. -/
theorem Engine.ofGrammar_eq_ok_iff {source : String} {log : Log} {engine : Engine} :
    ((Engine.ofGrammar source).run log).1 = .ok engine ↔
      ∃ lexer, ((Grammar.lexerOfSource source).run log).1 = .ok lexer ∧ engine = Engine.ofLexer lexer := by
  unfold Engine.ofGrammar
  rw [Logged.run_bind_fst]
  cases ((Grammar.lexerOfSource source).run log).1 with
  | error e =>
    constructor
    · intro h
      cases h
    · rintro ⟨lexer, h, -⟩
      cases h
  | ok lexer =>
    constructor
    · intro h
      cases h
      exact ⟨lexer, rfl, rfl⟩
    · rintro ⟨found, h, rfl⟩
      cases h
      rfl

/-! ## Records -/

namespace Tokenizer

/-- Every token has a record. -/
theorem exists_records_of_recordsFrom (t : Tokenizer) (tokens : List Token) :
    ∀ {count : Nat} {done records : List Record} {log : Log},
      ((t.recordsFrom count done tokens).run log).1 = .ok records →
      ∃ more, records = done.reverse ++ more ∧ tokens.map (Token.record t.engine.vocabulary t.table) = more.map .ok := by
  induction tokens with
  | nil =>
    intro count done records log h
    cases h
    exact ⟨[], by simp, rfl⟩
  | cons token tokens ih =>
    intro count done records log h
    rw [recordsFrom] at h
    split at h
    · cases h
    · rw [Logged.run_bind_fst, Token.classify_run] at h
      cases hrecord : token.record t.engine.vocabulary t.table with
      | error e =>
        rw [hrecord] at h
        cases h
      | ok r =>
        rw [hrecord] at h
        obtain ⟨more, rfl, hmore⟩ := ih h
        exact ⟨r :: more, by simp, by rw [List.map_cons, List.map_cons, hrecord, hmore]⟩

/-- The records of a text are those of its visible tokens. -/
theorem exists_tokens_of_records {t : Tokenizer} {text : String} {log : Log} {records : List Record}
    (h : ((t.records text).run log).1 = .ok records) :
    ∃ tokens, t.engine.tokens text = .ok tokens ∧
      (tokens.filter Token.isVisible).map (Token.record t.engine.vocabulary t.table) = records.map .ok := by
  unfold Tokenizer.records at h
  cases htokens : t.engine.tokens text with
  | error e =>
    rw [htokens] at h
    cases h
  | ok tokens =>
    rw [htokens] at h
    dsimp only at h
    rw [Logged.run_bind_fst] at h
    cases hrecords : ((t.recordsFrom 0 [] (tokens.filter Token.isVisible)).run log).1 with
    | error e =>
      rw [hrecords] at h
      cases h
    | ok found =>
      rw [hrecords] at h
      cases h
      obtain ⟨more, rfl, hmore⟩ := exists_records_of_recordsFrom t _ hrecords
      exact ⟨tokens, rfl, hmore⟩

/-- A substitute is missing only for a token. -/
theorem exists_token_of_recordsFrom_error (t : Tokenizer) (tokens : List Token) {e : Substitutions.Error} :
    ∀ {count : Nat} {done : List Record} {log : Log},
      ((t.recordsFrom count done tokens).run log).1 = .error (.substitution e) →
      ∃ token ∈ tokens, token.record t.engine.vocabulary t.table = .error e := by
  induction tokens with
  | nil =>
    intro count done log h
    cases h
  | cons token tokens ih =>
    intro count done log h
    rw [recordsFrom] at h
    split at h
    · cases h
    · rw [Logged.run_bind_fst, Token.classify_run] at h
      cases hrecord : token.record t.engine.vocabulary t.table with
      | error e' =>
        rw [hrecord] at h
        cases h
        exact ⟨token, List.mem_cons_self, hrecord⟩
      | ok r =>
        rw [hrecord] at h
        obtain ⟨token', hmem, herror⟩ := ih h
        exact ⟨token', List.mem_cons_of_mem _ hmem, herror⟩

/-- A text is refused for a missing substitute only if that of a visible token is missing. -/
theorem exists_token_of_error {t : Tokenizer} {text : String} {log : Log} {e : Substitutions.Error}
    (h : ((t.records text).run log).1 = .error (.substitution e)) :
    ∃ tokens, t.engine.tokens text = .ok tokens ∧
      ∃ token ∈ tokens, token.isVisible = true ∧ token.record t.engine.vocabulary t.table = .error e := by
  unfold Tokenizer.records at h
  cases htokens : t.engine.tokens text with
  | error e' =>
    rw [htokens] at h
    cases h
  | ok tokens =>
    rw [htokens] at h
    dsimp only at h
    rw [Logged.run_bind_fst] at h
    cases hrecords : ((t.recordsFrom 0 [] (tokens.filter Token.isVisible)).run log).1 with
    | error e' =>
      rw [hrecords] at h
      cases h
      obtain ⟨token, hmem, herror⟩ := exists_token_of_recordsFrom_error t _ hrecords
      obtain ⟨hmem, hvisible⟩ := List.mem_filter.mp hmem
      exact ⟨tokens, rfl, token, hmem, hvisible, herror⟩
    | ok found =>
      rw [hrecords] at h
      cases h

/-- A text with one token is refused if the substitute of the token is missing. -/
theorem records_of_singleton {t : Tokenizer} {text : String} {token : Token} {e : Substitutions.Error}
    (htokens : t.engine.tokens text = .ok [token]) (hvisible : token.isVisible = true)
    (herror : token.record t.engine.vocabulary t.table = .error e) (log : Log) :
    ((t.records text).run log).1 = .error (.substitution e) := by
  have hfrom : ((t.recordsFrom 0 [] [token]).run log).1 = .error (.substitution e) := by
    rw [recordsFrom, if_neg (by decide), Logged.run_bind_fst, Token.classify_run, herror]
    rfl
  unfold Tokenizer.records
  rw [htokens]
  dsimp only
  rw [List.filter_cons_of_pos hvisible, List.filter_nil, Logged.run_bind_fst, hfrom]
  rfl

section

variable {v : Vocabulary} {table : Substitutions} {tokens : List Token} {records : List Record}

/-- Every record is that of a visible token. -/
theorem exists_token_of_mem (h : (tokens.filter Token.isVisible).map (Token.record v table) = records.map .ok) {r : Record}
    (hr : r ∈ records) : ∃ t ∈ tokens, t.isVisible = true ∧ t.record v table = .ok r := by
  have hmem : Except.ok r ∈ (tokens.filter Token.isVisible).map (Token.record v table) := by
    rw [h]
    exact List.mem_map_of_mem hr
  obtain ⟨t, ht, hrecord⟩ := List.mem_map.mp hmem
  obtain ⟨ht, hvisible⟩ := List.mem_filter.mp ht
  exact ⟨t, ht, hvisible, hrecord⟩

/-- Every visible token has its record. -/
theorem exists_record_of_mem (h : (tokens.filter Token.isVisible).map (Token.record v table) = records.map .ok) {t : Token}
    (ht : t ∈ tokens) (hvisible : t.isVisible = true) : ∃ r ∈ records, t.record v table = .ok r := by
  have hmem : t.record v table ∈ records.map .ok := by
    rw [← h]
    exact List.mem_map_of_mem (List.mem_filter.mpr ⟨ht, hvisible⟩)
  obtain ⟨r, hr, hrecord⟩ := List.mem_map.mp hmem
  exact ⟨r, hr, hrecord.symm⟩

end

end Tokenizer

/-! ## The log -/

/-- Whether a property of work holds of every report, and of all work that is composed of work which has it. -/
structure Logged.Compositional (P : {α : Type} → Logged α → Prop) : Prop where
  pure : ∀ {α : Type} (a : α), P (Pure.pure a : Logged α)
  bind : ∀ {α β : Type} {x : Logged α} {f : α → Logged β}, P x → (∀ a, P (f a)) → P (x >>= f)
  report : ∀ e : Log.Event, P (Log.report e)

namespace Logged.Compositional

variable {P : {α : Type} → Logged α → Prop} (h : Compositional P)
include h

theorem refuse {α : Type} (path message : String) (error : Files.ReadError) (details : List (String × String)) :
    P (Files.refuse path message error details : Logged (Except Files.ReadError α)) :=
  h.bind (h.report _) fun _ => h.pure _

theorem readSource (files : Files.Tree) (limit : Nat) (path : String) : P (Files.readSource files limit path) := by
  refine h.bind (h.report _) fun _ => ?_
  split
  · exact h.refuse _ _ _ _
  · split
    · exact h.refuse _ _ _ _
    · split
      · exact h.refuse _ _ _ _
      · dsimp only
        split
        · exact h.bind (h.report _) fun _ => h.bind (h.report _) fun _ => h.pure _
        · exact h.bind (h.report _) fun _ => h.pure _
  · exact h.refuse _ _ _ _

theorem normalize (table : Substitutions) (literal : String) : P (table.normalize literal) := by
  unfold Substitutions.normalize Substitutions.substitute
  split
  · exact h.pure _
  · split <;> exact h.bind (h.report _) fun _ => h.pure _

theorem classify (v : Vocabulary) (table : Substitutions) (t : Token) : P (t.classify v table) := by
  unfold Token.classify
  split
  · exact h.pure _
  · refine h.bind (h.normalize table _) fun found => ?_
    split <;> exact h.pure _

theorem recordsFrom (t : Tokenizer) (tokens : List Token) (count : Nat) (done : List Record) :
    P (t.recordsFrom count done tokens) := by
  induction tokens generalizing count done with
  | nil => exact h.pure _
  | cons token tokens ih =>
    unfold Tokenizer.recordsFrom
    split
    · exact h.bind (h.report _) fun _ => h.pure _
    · refine h.bind (h.classify _ _ _) fun found => ?_
      split
      · exact h.bind (h.report _) fun _ => h.pure _
      · exact ih _ _

theorem records (t : Tokenizer) (text : String) : P (t.records text) := by
  unfold Tokenizer.records
  split
  · exact h.bind (h.report _) fun _ => h.pure _
  · refine h.bind (h.recordsFrom t _ _ _) fun found => ?_
    split
    · exact h.pure _
    · exact h.bind (h.report _) fun _ => h.pure _

theorem fileRecords (t : Tokenizer) (files : Files.Tree) (path : String) : P (t.fileRecords files path) := by
  refine h.bind (h.readSource files _ path) fun found => ?_
  split
  · exact h.pure _
  · exact h.records t _

end Logged.Compositional

/-- Whether what was reported before does not change the result of some work. -/
def Logged.Steady {α : Type} (work : Logged α) : Prop := ∀ log log', (work.run log).1 = (work.run log').1

namespace Logged.Steady

theorem bind {α β : Type} {x : Logged α} {f : α → Logged β} (hx : Steady x) (hf : ∀ a, Steady (f a)) : Steady (x >>= f) := by
  intro log log'
  rw [run_bind_fst, run_bind_fst, hx log log']
  exact hf _ _ _

theorem fileRecords (t : Tokenizer) (files : Files.Tree) (path : String) : Steady (t.fileRecords files path) :=
  Compositional.fileRecords ⟨fun _ _ _ => rfl, bind, fun _ _ _ => rfl⟩ t files path

end Logged.Steady

namespace Token

variable {v : Vocabulary} {table : Substitutions} {t : Token}

/-- A token has no record exactly when its category has no symbol and its text has no legal name. -/
theorem record_eq_error_iff {e : Substitutions.Error} :
    t.record v table = .error e ↔ v.symbol? t.category = none ∧ table.normalized t.text = .error e := by
  unfold record terminal
  cases v.symbol? t.category with
  | some symbol => simp [Except.map]
  | none => cases table.normalized t.text <;> simp [Except.map]

/-- The record of a token has its text, and the symbol of its category or else the legal name of the text. -/
theorem record_eq_ok_iff {r : Record} :
    t.record v table = .ok r ↔ r.literal = t.text ∧
      (v.symbol? t.category = some r.terminal ∨
        v.symbol? t.category = none ∧ ∃ name, table.normalized t.text = .ok name ∧ r.terminal = Terminal.ofLiteral name) := by
  obtain ⟨found, literal⟩ := r
  unfold record terminal
  cases v.symbol? t.category with
  | some symbol => simp [Except.map, and_comm, eq_comm]
  | none => cases table.normalized t.text <;> simp [Except.map, and_comm, eq_comm]

/-- The terminal of a token is the symbol of its category, or a legal name if there is none. -/
theorem terminal_of_record (htable : table.Legal) {r : Record} (h : t.record v table = .ok r) :
    v.symbol? t.category = some r.terminal ∨ v.symbol? t.category = none ∧ Terminal.isLegal r.terminal = true := by
  obtain ⟨-, hsymbol | ⟨hnone, name, hname, hterminal⟩⟩ := record_eq_ok_iff.mp h
  · exact .inl hsymbol
  · refine .inr ⟨hnone, ?_⟩
    rw [hterminal, Terminal.isLegal_ofLiteral]
    exact htable.isLegal_normalized hname

end Token

end Lexeme
