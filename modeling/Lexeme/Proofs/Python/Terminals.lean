import Lexeme.Proofs.Python.Symbols
import Lexeme.Proofs.Substitutions.Standard
import Lexeme.Proofs.Tokenizer

/-!
# The terminals of Python texts

A segment has the kind of a keyword or of an operator only if its text is just that (`Spelled`): a word is looked up as a
whole, and an operator is found by its text. So no text but those in the lists is ever normalized, and the standard table
has what it takes for all of them: every text that can be cut has records, with legal terminals that tell literals apart
(`records_standard`).
-/

namespace Lexeme.Python

/-! ## Literals -/

namespace Kind

theorem mem_of_literal? {kind : Kind} {literal : String} (h : kind.literal? = some literal) :
    literal ∈ keywords ++ operators := by
  cases kind with
  | keyword index => exact List.mem_append_left _ (List.mem_of_getElem? h)
  | operator index => exact List.mem_append_right _ (List.mem_of_getElem? h)
  | _ => cases h

end Kind

/-! ## Segments -/

/-- Whether a segment whose kind has no name has just the text of its kind. -/
def Spelled (s : Segment Kind) : Prop := s.kind.symbol? = none → s.kind.literal? = some (String.ofList s.text)

theorem spelled_of_isSome {s : Segment Kind} (h : s.kind.symbol?.isSome) : Spelled s := by
  intro hnone
  rw [hnone] at h
  cases h

/-- A word is a keyword only if it is one as a whole. -/
theorem spelled_word (word : List Char) : Spelled ⟨wordKind word, word⟩ := by
  unfold wordKind
  split
  · next index h =>
    obtain ⟨hlt, hword, -⟩ := List.idxOf?_eq_some_iff.mp h
    exact fun _ => (List.getElem?_eq_getElem hlt).trans (congrArg some hword)
  · exact spelled_of_isSome rfl

theorem spelled_content {st : State} {c : Char} {s : List Char} {n : Next} (h : content st c s = .ok n) : Spelled n.1 := by
  unfold content at h
  split at h
  · split at h
    · obtain rfl := Except.ok.inj h
      exact spelled_of_isSome rfl
    · cases h
  · split at h
    · obtain rfl := Except.ok.inj h
      exact spelled_of_isSome rfl
    · split at h
      · obtain rfl := Except.ok.inj h
        exact spelled_word _
      · split at h
        · next hop =>
          obtain rfl := Except.ok.inj h
          exact fun _ => getElem?_operators_of_mem (List.mem_of_find?_eq_some hop)
        · cases h

theorem spelled_next {st : State} {c : Char} {rest : List Char} {n : Next} (h : next st c rest = .ok n) : Spelled n.1 := by
  unfold next at h
  split at h
  · obtain rfl := Except.ok.inj h
    unfold State.endLine
    split <;> exact spelled_of_isSome rfl
  · split at h
    · obtain rfl := Except.ok.inj h
      exact spelled_of_isSome rfl
    · split at h
      · obtain rfl := Except.ok.inj h
        exact spelled_of_isSome rfl
      · split at h
        · obtain rfl := Except.ok.inj h
          exact spelled_of_isSome rfl
        · exact spelled_content h

theorem spelled_indentation {levels : List Nat} {space rest : List Char} {s : Segment Kind}
    (hs : s ∈ (indentation levels space rest).1) : Spelled s := by
  refine spelled_of_isSome ?_
  rcases (of_mem_indentation hs).1 with h | h | h <;>
  · rw [h]
    rfl

theorem Run.spelled {st last : State} {t left : List Char} {segments : List (Segment Kind)}
    (h : Run st t segments last left) : ∀ s ∈ segments, Spelled s :=
  h.forall_mem spelled_indentation spelled_next

theorem spelled_finish {st : State} : ∀ s ∈ finish st, Spelled s := by
  intro s hs
  refine spelled_of_isSome ?_
  rcases (of_mem_finish hs).1 with h | h <;>
  · rw [h]
    rfl

/-! ## Tokens -/

/-- A token has the category of a proper kind, and if the kind has no name, just the text of the kind. -/
theorem exists_kind_of_tokens {source : String} {ts : List Token} (h : tokens source = .ok ts) {t : Token} (ht : t ∈ ts) :
    ∃ kind : Kind, kind.Proper ∧ t.category = kind.category ∧ (kind.symbol? = none → kind.literal? = some t.text) := by
  obtain ⟨segments, last, hrun, rfl⟩ := exists_run_of_tokens h
  obtain ⟨first, rest, hsplit⟩ := List.append_of_mem ht
  obtain ⟨before, s, after, hsegments, htoken, -⟩ := Segment.exists_segment_of_emitted hsplit
  have hs : s ∈ segments ++ finish last := by
    rw [hsegments]
    simp
  refine ⟨s.kind, proper_of_run hrun s hs, category_of_token? htoken, fun hnone => ?_⟩
  rw [(Segment.token?_eq_some_iff.mp htoken).1]
  rcases List.mem_append.mp hs with hs | hs
  · exact hrun.spelled s hs hnone
  · exact spelled_finish s hs hnone

/-- A token of an anonymous category has the text of the category. -/
theorem literalName?_of_tokens {source : String} {ts : List Token} (h : tokens source = .ok ts) {t : Token} (ht : t ∈ ts)
    (hnone : vocabulary.symbol? t.category = none) : vocabulary.literalName? t.category = some s!"'{t.text}'" := by
  obtain ⟨kind, hproper, hcategory, hliteral⟩ := exists_kind_of_tokens h ht
  rw [hcategory, Kind.symbol?_category hproper] at hnone
  rw [hcategory, Kind.literalName?_category hproper, hliteral hnone]
  rfl

/-! ## The standard table -/

/-- The legal names of the keywords and operators. -/
def standardNames : List (Option String) :=
  (keywords ++ operators).map fun literal => (Substitutions.standard.normalized literal).toOption

theorem isSome_standardNames : ∀ name ∈ standardNames, name.isSome := by decide +kernel

/-- No two of them have the same name. -/
theorem nodup_standardNames : standardNames.Nodup := by decide +kernel

theorem exists_normalized_standard {literal : String} (h : literal ∈ keywords ++ operators) :
    ∃ name, Substitutions.standard.normalized literal = .ok name := by
  have hsome := isSome_standardNames _ (List.mem_map_of_mem h)
  cases hname : Substitutions.standard.normalized literal with
  | error e =>
    rw [hname] at hsome
    cases hsome
  | ok name => exact ⟨name, rfl⟩

theorem eq_of_normalized_standard {literal other name : String} (h : literal ∈ keywords ++ operators)
    (hother : other ∈ keywords ++ operators) (hname : Substitutions.standard.normalized literal = .ok name)
    (hname' : Substitutions.standard.normalized other = .ok name) : literal = other :=
  List.inj_on_of_nodup_map nodup_standardNames h hother (by rw [hname, hname'])

/-! ## Records -/

/-- No name of a kind is made from a literal. -/
theorem ne_ofLiteral_of_symbol? {kind : Kind} {symbol : String} (h : kind.symbol? = some symbol) (name : String) :
    symbol ≠ Terminal.ofLiteral name := by
  intro heq
  have hhead : symbol.toList.head? = some 'L' := by
    rw [heq]
    simp [Terminal.ofLiteral, Terminal.literalMark]
  cases kind <;> simp [Kind.symbol?] at h <;> subst h <;> revert hhead <;> decide

theorem isLegal_of_symbol? {kind : Kind} {symbol : String} (h : kind.symbol? = some symbol) :
    Terminal.isLegal symbol = true := by
  cases kind <;> simp [Kind.symbol?] at h <;> subst h <;> decide

/-- The tokenizer of Python texts with a table. -/
def tokenizer (table : Substitutions) : Tokenizer := ⟨Engine.builtIn .python3, table⟩

section

variable {table : Substitutions} {text : String} {log : Log}

/-- A visible token is named by its kind, or it is a keyword or an operator. -/
theorem mem_or_isSome_symbol?_of_tokens {ts : List Token} (h : tokens text = .ok ts) {t : Token} (ht : t ∈ ts) :
    (∃ kind : Kind, kind.symbol?.isSome ∧ vocabulary.symbol? t.category = kind.symbol?) ∨
      vocabulary.symbol? t.category = none ∧ t.text ∈ keywords ++ operators := by
  obtain ⟨kind, hproper, hcategory, hliteral⟩ := exists_kind_of_tokens h ht
  rw [hcategory, Kind.symbol?_category hproper]
  cases hsymbol : kind.symbol? with
  | some symbol => exact .inl ⟨kind, by rw [hsymbol]; rfl, hsymbol.symm⟩
  | none => exact .inr ⟨rfl, Kind.mem_of_literal? (hliteral hsymbol)⟩

/-- No substitute is missing. -/
theorem ne_substitution_error (htable : ∀ literal, table.lookup? literal = Substitutions.standard.lookup? literal)
    (e : Substitutions.Error) : (((tokenizer table).records text).run log).1 ≠ .error (.substitution e) := by
  intro h
  obtain ⟨ts, hts, t, ht, -, herror⟩ := Tokenizer.exists_token_of_error h
  obtain ⟨hnone, hnormalized⟩ := Token.record_eq_error_iff.mp herror
  rcases mem_or_isSome_symbol?_of_tokens hts ht with ⟨kind, hsome, hsymbol⟩ | ⟨-, hmem⟩
  · rw [← hsymbol, show vocabulary.symbol? t.category = none from hnone] at hsome
    cases hsome
  · obtain ⟨name, hname⟩ := exists_normalized_standard hmem
    rw [← Substitutions.normalized_congr htable] at hname
    cases hname.symm.trans hnormalized

/-- A terminal is the name of a kind, or it is made from the legal name of the literal, which is a keyword or an
operator. -/
theorem terminal_cases (htable : ∀ literal, table.lookup? literal = Substitutions.standard.lookup? literal)
    {records : List Record} (h : (((tokenizer table).records text).run log).1 = .ok records) {r : Record} (hr : r ∈ records) :
    (∃ kind : Kind, kind.symbol? = some r.terminal) ∨
      r.literal ∈ keywords ++ operators ∧
        ∃ name, Substitutions.standard.normalized r.literal = .ok name ∧ r.terminal = Terminal.ofLiteral name := by
  obtain ⟨ts, hts, hmap⟩ := Tokenizer.exists_tokens_of_records h
  obtain ⟨t, ht, -, hrecord⟩ := Tokenizer.exists_token_of_mem hmap hr
  obtain ⟨hliteral, hterminal⟩ := Token.record_eq_ok_iff.mp hrecord
  rw [hliteral]
  rcases mem_or_isSome_symbol?_of_tokens hts ht with ⟨kind, hsome, hsymbol⟩ | ⟨hnone, hmem⟩
  · rcases hterminal with hterminal | ⟨hnone, -⟩
    · exact .inl ⟨kind, hsymbol.symm.trans hterminal⟩
    · rw [← hsymbol, show vocabulary.symbol? t.category = none from hnone] at hsome
      cases hsome
  · rcases hterminal with hterminal | ⟨-, name, hname, hterminal⟩
    · cases hterminal.symm.trans hnone
    · exact .inr ⟨hmem, name, (Substitutions.normalized_congr htable t.text).symm.trans hname, hterminal⟩

end

/-- With the standard table, as it is read from its document, no Python text is refused for a missing substitute. A token
without a symbol has just the text of its category. The terminals of records are legal, and records with one terminal that
is made from a literal have the same literal, also if they are of different texts. -/
theorem records_standard : ∃ table, Substitutions.ofJson Substitutions.standardDocument = .ok table ∧
    (∀ text log e, (((tokenizer table).records text).run log).1 ≠ .error (.substitution e)) ∧
    (∀ text ts, (tokenizer table).engine.tokens text = .ok ts → ∀ t ∈ ts,
      (tokenizer table).engine.vocabulary.symbol? t.category = none →
        (tokenizer table).engine.vocabulary.literalName? t.category = some s!"'{t.text}'") ∧
    (∀ text log records, (((tokenizer table).records text).run log).1 = .ok records →
      ∀ r ∈ records, Terminal.isLegal r.terminal = true) ∧
    ∀ text log records text' log' records', (((tokenizer table).records text).run log).1 = .ok records →
      (((tokenizer table).records text').run log').1 = .ok records' →
      ∀ r ∈ records, ∀ r' ∈ records', ∀ name, r.terminal = Terminal.ofLiteral name → r'.terminal = r.terminal →
        r.literal = r'.literal := by
  obtain ⟨table, hdocument, htable⟩ := Substitutions.exists_ofJson_standardDocument
  refine ⟨table, hdocument, fun _ _ => ne_substitution_error htable, fun _ _ => literalName?_of_tokens, ?_, ?_⟩
  · intro text log records h r hr
    rcases terminal_cases htable h hr with ⟨kind, hsymbol⟩ | ⟨-, name, hname, hterminal⟩
    · exact isLegal_of_symbol? hsymbol
    · rw [hterminal, Terminal.isLegal_ofLiteral]
      exact (Substitutions.legal_of_ofEntries Substitutions.ofEntries_standardEntries).isLegal_normalized hname
  · intro text log records text' log' records' h h' r hr r' hr' name hterminal hsame
    rcases terminal_cases htable h hr with ⟨kind, hsymbol⟩ | ⟨hmem, found, hfound, hr⟩
    · exact absurd hterminal (ne_ofLiteral_of_symbol? hsymbol name)
    rcases terminal_cases htable h' hr' with ⟨kind, hsymbol⟩ | ⟨hmem', found', hfound', hr'⟩
    · exact absurd (hsame.trans hterminal) (ne_ofLiteral_of_symbol? hsymbol name)
    obtain rfl : found' = found := by
      have hnames : Terminal.ofLiteral found' = Terminal.ofLiteral found := by rw [← hr, ← hr', hsame]
      simpa [Terminal.ofLiteral] using hnames
    exact eq_of_normalized_standard hmem hmem' hfound hfound'

end Lexeme.Python
