import Lexeme.Proofs.Grammar.Symbol
import Lexeme.Proofs.Text.Letters

/-!
# How symbols are spelled

The texts that a symbol may have in a source: a character of a literal or a set stands for itself, unless it is special
there, or it is escaped; a hyphen that is not escaped makes a range only between two characters. White space may stand
between symbols, and has to where the text of a symbol would go on otherwise. Such a text is read back as the symbols
(`exists_symbols_of_spells`), and all symbols have one (`exists_spells`).
-/

namespace Lexeme.Grammar

/-! ## Characters -/

/-- The letters that stand for a character after a backslash, each with the character. -/
def letterEscapes : List (Char × Char) :=
  [('n', '\n'), ('r', '\r'), ('t', '\t'), ('b', '\x08'), ('f', '\x0c'), ('\\', '\\'), ('\'', '\''), ('"', '"')]

/-- The characters that can be escaped by themselves in a set only. -/
def setEscapes : List Char := [']', '[', '-']

/-- The escapes of a character, without the backslash. -/
inductive Escaped (inSet : Bool) (c : Char) : List Char → Prop
  | letter {d : Char} (h : (d, c) ∈ letterEscapes ∨ inSet = true ∧ d = c ∧ c ∈ setEscapes) : Escaped inSet c [d]
  | fixed {digits : List Char} (hlength : digits.length = 4) (hdigits : ∀ d ∈ digits, isHexDigit d = true)
      (hvalue : digitsValue 16 hexDigitValue digits = c.toNat) : Escaped inSet c ('u' :: digits)
  | braced {digits : List Char} (hdigits : ∀ d ∈ digits, isHexDigit d = true) (hne : digits ≠ [])
      (hvalue : digitsValue 16 hexDigitValue digits = c.toNat) : Escaped inSet c ('u' :: '\x7b' :: (digits ++ ['\x7d']))

/-- Whether a character does not stand for itself in a literal or a set. -/
def isSpecial (inSet : Bool) (c : Char) : Bool :=
  c = '\\' || (if inSet then c = ']' else c = '\'' || c = '\n')

/-- The texts of characters, each of which is escaped or not. -/
inductive Spelled (inSet : Bool) : List (Char × Bool) → List Char → Prop
  | nil : Spelled inSet [] []
  | verbatim {c : Char} {marks : List (Char × Bool)} {w : List Char} (hc : isSpecial inSet c = false)
      (h : Spelled inSet marks w) : Spelled inSet ((c, false) :: marks) (c :: w)
  | escaped {c : Char} {marks : List (Char × Bool)} {v w : List Char} (hc : Escaped inSet c v)
      (h : Spelled inSet marks w) : Spelled inSet ((c, true) :: marks) ('\\' :: (v ++ w))

/-- Whether a reader takes a text, wherever it stands and whatever follows, and gives a value. -/
def Reads {α : Type} (read : Located → Read α) (w : List Char) (a : α) : Prop :=
  ∀ s rest : Located, s.map Prod.fst = w → read (s ++ rest) = .ok (a, rest)

theorem exists_cons_of_map {α β : Type} {s : List (α × β)} {a : α} {w : List α} (h : s.map Prod.fst = a :: w) :
    ∃ p t, s = (a, p) :: t ∧ t.map Prod.fst = w := by
  obtain ⟨⟨_, p⟩, t, rfl, rfl, ht⟩ := List.map_eq_cons_iff.mp h
  exact ⟨p, t, rfl, ht⟩

theorem exists_singleton_of_map {α β : Type} {s : List (α × β)} {a : α} (h : s.map Prod.fst = [a]) :
    ∃ p, s = [(a, p)] := by
  obtain ⟨p, t, rfl, ht⟩ := exists_cons_of_map h
  exact ⟨p, by rw [List.map_eq_nil_iff.mp ht]⟩

theorem letterEscape?_eq_some {inSet : Bool} {c d : Char}
    (h : (d, c) ∈ letterEscapes ∨ inSet = true ∧ d = c ∧ c ∈ setEscapes) : letterEscape? inSet d = some c := by
  have hletters : ∀ e ∈ letterEscapes, letterEscape? inSet e.1 = some e.2 := by cases inSet <;> decide
  have hset : ∀ d ∈ setEscapes, letterEscape? true d = some d := by simp [setEscapes, letterEscape?]
  rcases h with h | ⟨rfl, rfl, h⟩
  · exact hletters _ h
  · exact hset d h

theorem reads_fixedDigits {digits : List Char} (hdigits : ∀ d ∈ digits, isHexDigit d = true) (done : List Char) :
    Reads (fixedDigits done digits.length) digits (done.reverse ++ digits) := by
  intro s rest hs
  induction digits generalizing done s with
  | nil =>
    obtain rfl := List.map_eq_nil_iff.mp hs
    simp [fixedDigits]
  | cons d digits ih =>
    obtain ⟨p, t, rfl, ht⟩ := exists_cons_of_map hs
    obtain ⟨hd, hdigits⟩ := List.forall_mem_cons.mp hdigits
    rw [List.length_cons, List.cons_append, fixedDigits, if_pos hd, ih hdigits _ t ht]
    simp

theorem reads_bracedDigits {digits : List Char} (hdigits : ∀ d ∈ digits, isHexDigit d = true) (done : List Char) :
    Reads (bracedDigits done) (digits ++ ['\x7d']) (done.reverse ++ digits) := by
  intro s rest hs
  induction digits generalizing done s with
  | nil =>
    obtain ⟨p, rfl⟩ := exists_singleton_of_map hs
    simp [bracedDigits]
  | cons d digits ih =>
    obtain ⟨p, t, rfl, ht⟩ := exists_cons_of_map hs
    obtain ⟨hd, hdigits⟩ := List.forall_mem_cons.mp hdigits
    have hne : d ≠ '\x7d' := by
      rintro rfl
      revert hd
      decide
    rw [List.cons_append, bracedDigits, if_neg hne, if_pos hd, ih hdigits _ t ht]
    simp

theorem codePoint_eq_ok {digits : List Char} {c : Char} (hne : digits ≠ [])
    (hvalue : digitsValue 16 hexDigitValue digits = c.toNat) (rest : Located) : codePoint digits rest = .ok (c, rest) := by
  unfold codePoint
  rw [hvalue, if_pos ⟨hne, c.valid⟩, Char.ofNat_toNat]

theorem escape_u (inSet : Bool) {p : Position} {s rest : Located} {digits : List Char}
    (h : escapeDigits s = .ok (digits, rest)) : escape inSet (('u', p) :: s) = codePoint digits rest := by
  have hnone : letterEscape? inSet 'u' = none := by cases inSet <;> decide
  unfold escape
  simp only [hnone, if_pos, h]

/-- A brace is no digit. -/
theorem escapeDigits_of_digit {d : Char} {p : Position} {s : Located} (hd : isHexDigit d = true) :
    escapeDigits ((d, p) :: s) = fixedDigits [] 4 ((d, p) :: s) := by
  unfold escapeDigits
  split
  · next heq =>
    obtain ⟨hbrace, -⟩ := List.cons.inj heq
    rw [(Prod.mk.inj hbrace).1] at hd
    cases hd
  · rfl

theorem reads_escape {inSet : Bool} {c : Char} {w : List Char} (h : Escaped inSet c w) : Reads (escape inSet) w c := by
  intro s rest hs
  cases h with
  | @letter d h =>
    obtain ⟨p, rfl⟩ := exists_singleton_of_map hs
    simp only [List.cons_append, List.nil_append, escape, letterEscape?_eq_some h]
  | @fixed digits hlength hdigits hvalue =>
    obtain ⟨p, t, rfl, ht⟩ := exists_cons_of_map hs
    obtain ⟨d, others, rfl⟩ := List.exists_cons_of_length_pos (by omega : 0 < digits.length)
    have hread := reads_fixedDigits hdigits [] t rest ht
    obtain ⟨q, t, rfl, ht⟩ := exists_cons_of_map ht
    have hescape : escapeDigits ((d, q) :: t ++ rest) = .ok (d :: others, rest) := by
      rw [List.cons_append, escapeDigits_of_digit (hdigits d List.mem_cons_self), ← List.cons_append, ← hlength]
      exact hread
    rw [List.cons_append, escape_u inSet hescape]
    exact codePoint_eq_ok (List.cons_ne_nil _ _) hvalue rest
  | @braced digits hdigits hne hvalue =>
    obtain ⟨p, t, rfl, ht⟩ := exists_cons_of_map hs
    obtain ⟨q, u, rfl, hu⟩ := exists_cons_of_map ht
    have hescape : escapeDigits (('\x7b', q) :: u ++ rest) = .ok (digits, rest) := reads_bracedDigits hdigits [] u rest hu
    rw [List.cons_append, escape_u inSet hescape]
    exact codePoint_eq_ok hne hvalue rest

/-! ## Literals and sets -/

theorem reads_literal {marks : List (Char × Bool)} {w : List Char} (h : Spelled false marks w) (done : List Char) :
    Reads (literal done) (w ++ ['\'']) (String.ofList (done.reverse ++ marks.map Prod.fst)) := by
  intro s rest hs
  induction h generalizing done s with
  | nil =>
    obtain ⟨p, rfl⟩ := exists_singleton_of_map hs
    rw [List.cons_append, literal]
    simp
  | @verbatim c marks w hc _ ih =>
    obtain ⟨p, t, rfl, ht⟩ := exists_cons_of_map hs
    obtain ⟨hbackslash, hquote, hbreak⟩ : c ≠ '\\' ∧ c ≠ '\'' ∧ c ≠ '\n' := by
      simpa [isSpecial] using hc
    rw [List.cons_append, literal]
    simp only [if_neg hquote, if_neg hbreak, if_neg hbackslash]
    rw [ih _ t ht]
    simp
  | @escaped c marks v w hc _ ih =>
    rw [List.cons_append, List.append_assoc] at hs
    obtain ⟨p, tu, rfl, htu⟩ := exists_cons_of_map hs
    obtain ⟨t, u, rfl, ht, hu⟩ := List.map_eq_append_iff.mp htu
    have hescape := reads_escape hc t (u ++ rest) ht
    rw [List.cons_append, List.append_assoc, literal]
    simp only [if_neg (by decide : '\\' ≠ '\''), if_neg (by decide : '\\' ≠ '\n'), if_pos]
    split
    · next d after hread =>
      rw [hescape] at hread
      obtain ⟨rfl, rfl⟩ := Prod.mk.inj (Except.ok.inj hread)
      rw [ih _ u hu]
      simp
    · next hread => cases hescape.symm.trans hread

theorem reads_setChars {marks : List (Char × Bool)} {w : List Char} (h : Spelled true marks w) (done : List (Char × Bool)) :
    Reads (setChars done) (w ++ [']']) (done.reverse ++ marks) := by
  intro s rest hs
  induction h generalizing done s with
  | nil =>
    obtain ⟨p, rfl⟩ := exists_singleton_of_map hs
    rw [List.cons_append, setChars]
    simp
  | @verbatim c marks w hc _ ih =>
    obtain ⟨p, t, rfl, ht⟩ := exists_cons_of_map hs
    obtain ⟨hbackslash, hbracket⟩ : c ≠ '\\' ∧ c ≠ ']' := by
      simpa [isSpecial] using hc
    rw [List.cons_append, setChars]
    simp only [if_neg hbracket, if_neg hbackslash]
    rw [ih _ t ht]
    simp
  | @escaped c marks v w hc _ ih =>
    rw [List.cons_append, List.append_assoc] at hs
    obtain ⟨p, tu, rfl, htu⟩ := exists_cons_of_map hs
    obtain ⟨t, u, rfl, ht, hu⟩ := List.map_eq_append_iff.mp htu
    have hescape := reads_escape hc t (u ++ rest) ht
    rw [List.cons_append, List.append_assoc, setChars]
    simp only [if_neg (by decide : '\\' ≠ ']'), if_pos]
    split
    · next d after hread =>
      rw [hescape] at hread
      obtain ⟨rfl, rfl⟩ := Prod.mk.inj (Except.ok.inj hread)
      rw [ih _ u hu]
      simp
    · next hread => cases hescape.symm.trans hread

/-- The items of a set with the characters that make them up: a hyphen between two characters makes a range, unless it is
escaped, so after a single character it has to come last. -/
inductive Itemized : List SetItem → List (Char × Bool) → Prop
  | nil : Itemized [] []
  | single {c : Char} {isEscaped : Bool} {items : List SetItem} {marks : List (Char × Bool)} (h : Itemized items marks)
      (hhyphen : ∀ x rest, marks ≠ ('-', false) :: x :: rest) : Itemized (.single c :: items) ((c, isEscaped) :: marks)
  | range {low high : Char} {isEscaped isEscaped' : Bool} {items : List SetItem} {marks : List (Char × Bool)}
      (hle : low ≤ high) (h : Itemized items marks) :
      Itemized (.range low high :: items) ((low, isEscaped) :: ('-', false) :: (high, isEscaped') :: marks)

theorem setItems_of_itemized {items : List SetItem} {marks : List (Char × Bool)} (h : Itemized items marks)
    (done : List SetItem) (hne : done ++ items ≠ []) : setItems done marks = .ok (done.reverse ++ items) := by
  induction h generalizing done with
  | nil =>
    rw [setItems, if_neg (by simpa using hne)]
    simp
  | @single c isEscaped items marks _ hhyphen ih =>
    have hsingle : setItems done ((c, isEscaped) :: marks) = setItems (.single c :: done) marks := by
      rw [setItems]
      exact fun high isEscaped' rest heq => hhyphen _ _ heq
    rw [hsingle, ih _ (by simp)]
    simp
  | @range low high isEscaped isEscaped' items marks hle _ ih =>
    rw [setItems, if_neg (Char.not_lt.mpr hle), ih _ (by simp)]
    simp

theorem reads_set {items : List SetItem} {marks : List (Char × Bool)} {w : List Char} (hne : items ≠ [])
    (hitems : Itemized items marks) (h : Spelled true marks w) : Reads set (w ++ [']']) items := by
  intro s rest hs
  unfold set
  rw [reads_setChars h [] s rest hs]
  dsimp only
  rw [List.reverse_nil, List.nil_append, setItems_of_itemized hitems [] hne]
  rfl

/-! ## Words, integers and blocks -/

theorem dropWhile_append_of_stop {α : Type} {p : α → Bool} {s rest : List α} (hs : ∀ a ∈ s, p a = true)
    (hrest : ∀ a ∈ rest.head?, p a = false) : (s ++ rest).dropWhile p = rest := by
  rw [List.dropWhile_append_of_pos hs]
  cases rest with
  | nil => rfl
  | cons a rest => rw [List.dropWhile_cons_of_neg (by simp [hrest a rfl])]

theorem takeWhile_append_of_stop {α : Type} {p : α → Bool} {s rest : List α} (hs : ∀ a ∈ s, p a = true)
    (hrest : ∀ a ∈ rest.head?, p a = false) : (s ++ rest).takeWhile p = s := by
  rw [List.takeWhile_append_of_pos hs]
  cases rest with
  | nil => rw [List.takeWhile_nil, List.append_nil]
  | cons a rest => rw [List.takeWhile_cons_of_neg (by simp [hrest a rfl]), List.append_nil]

theorem spanOf_append {p : Char → Bool} {s rest : Located} (hs : ∀ c ∈ s.map Prod.fst, p c = true)
    (hrest : ∀ c ∈ (rest.map Prod.fst).head?, p c = false) : spanOf p (s ++ rest) = (s.map Prod.fst, rest) := by
  have hall : ∀ x ∈ s, p x.1 = true := fun x hx => hs x.1 (List.mem_map_of_mem hx)
  have hstop : ∀ x ∈ rest.head?, p x.1 = false := by
    intro x hx
    exact hrest x.1 (by rw [List.head?_map, hx]; rfl)
  unfold spanOf
  rw [takeWhile_append_of_stop hall hstop, dropWhile_append_of_stop hall hstop]

theorem isDigit_eq_false_of_letter {c : Char} (h : (Text.isAlphabetic c || c = '_') = true) : c.isDigit = false := by
  rcases Bool.or_eq_true_iff.mp h with h | h
  · exact Text.isDigit_eq_false_of_isAlphabetic h
  · rw [of_decide_eq_true h]
    decide

theorem symbol_of_letter {c : Char} (h : (Text.isAlphabetic c || c = '_') = true) (p : Position) (rest : Located) :
    symbol c p rest = .ok (wordSymbol c (c :: (spanOf isNameChar rest).1), (spanOf isNameChar rest).2) := by
  have hother (d : Char) (hd : (Text.isAlphabetic d || d = '_') = false) : c ≠ d := by
    rintro rfl
    rw [h] at hd
    cases hd
  unfold symbol
  rw [if_neg (hother '\'' (by decide +kernel)), if_neg (hother '[' (by decide +kernel)),
    if_neg (hother '\x7b' (by decide +kernel)), isDigit_eq_false_of_letter h, if_neg Bool.false_ne_true, if_pos h]

/-- Whether a character can stand in a block without braces and quotations. -/
def isPlain (c : Char) : Bool := c ≠ '\x7b' && c ≠ '\x7d' && c ≠ '\'' && c ≠ '"'

theorem reads_action {body : List Char} (h : ∀ c ∈ body, isPlain c = true) (done : List Char) :
    Reads (action 0 none done) (body ++ ['\x7d']) (String.ofList (done.reverse ++ body)) := by
  intro s rest hs
  induction body generalizing done s with
  | nil =>
    obtain ⟨p, rfl⟩ := exists_singleton_of_map hs
    simp [action]
  | cons c body ih =>
    obtain ⟨p, t, rfl, ht⟩ := exists_cons_of_map hs
    obtain ⟨hc, hbody⟩ := List.forall_mem_cons.mp h
    obtain ⟨⟨⟨hopen, hclose⟩, hquote⟩, hdouble⟩ : ((c ≠ '\x7b' ∧ c ≠ '\x7d') ∧ c ≠ '\'') ∧ c ≠ '"' := by
      simpa [isPlain] using hc
    rw [List.cons_append, action]
    simp only [if_neg hopen, if_neg hclose, hquote, hdouble, or_self, if_false]
    rw [ih hbody _ t ht]
    simp

/-! ## Symbols -/

/-- The symbols of one or two characters. -/
def markTexts : List (Symbol × Char × Option Char) :=
  [(.colon, ':', none), (.doubleColon, ':', some ':'), (.semicolon, ';', none), (.bar, '|', none), (.leftParen, '(', none),
    (.rightParen, ')', none), (.question, '?', none), (.star, '*', none), (.plus, '+', none), (.plusAssign, '+', some '='),
    (.assign, '=', none), (.tilde, '~', none), (.dot, '.', none), (.doubleDot, '.', some '.'), (.arrow, '-', some '>'),
    (.comma, ',', none), (.at, '@', none), (.hash, '#', none), (.less, '<', none), (.greater, '>', none)]

/-- The texts of a symbol. -/
inductive Symbol.HasText : Symbol → List Char → Prop
  | word {c : Char} {word : List Char} (hc : (Text.isAlphabetic c || c = '_') = true)
      (hword : ∀ d ∈ word, isNameChar d = true) : HasText (wordSymbol c (c :: word)) (c :: word)
  | literal {marks : List (Char × Bool)} {w : List Char} (h : Spelled false marks w) :
      HasText (.literal (String.ofList (marks.map Prod.fst))) ('\'' :: (w ++ ['\'']))
  | set {items : List SetItem} {marks : List (Char × Bool)} {w : List Char} (hne : items ≠ [])
      (hitems : Itemized items marks) (h : Spelled true marks w) : HasText (.set items) ('[' :: (w ++ [']']))
  | action {body : List Char} (h : ∀ c ∈ body, isPlain c = true) :
      HasText (.action (String.ofList body)) ('\x7b' :: (body ++ ['\x7d']))
  | integer {d : Char} {digits : List Char} (hdigits : ∀ c ∈ d :: digits, c.isDigit = true)
      (hmax : decimalValue (d :: digits) ≤ maxInteger) : HasText (.integer (decimalValue (d :: digits))) (d :: digits)
  | mark {mark : Symbol} {c : Char} {after? : Option Char} (h : (mark, c, after?) ∈ markTexts) :
      HasText mark (c :: after?.toList)

/-- Whether a character after the text of a symbol would belong to that text, or make another symbol of it. -/
def Symbol.goesOn : Symbol → Char → Bool
  | tokenName _, c => isNameChar c
  | ruleName _, c => isNameChar c
  | integer _, c => c.isDigit
  | colon, c => c = ':'
  | dot, c => c = '.'
  | plus, c => c = '='
  | _, _ => false

/-- The texts of symbols, with white space before, between and after them. -/
inductive Spells : List Symbol → List Char → Prop
  | nil {gap : List Char} (hgap : ∀ c ∈ gap, Text.isBlank c = true) : Spells [] gap
  | cons {found : Symbol} {symbols : List Symbol} {gap w next : List Char} (hgap : ∀ c ∈ gap, Text.isBlank c = true)
      (hw : found.HasText w) (hnext : ∀ c ∈ next.head?, found.goesOn c = false) (h : Spells symbols next) :
      Spells (found :: symbols) (gap ++ (w ++ next))

theorem symbol_of_mark {c : Char} {p : Position} {rest : Located} {mark : Symbol} {both : Bool}
    (hc : (c ≠ '\'' ∧ c ≠ '[' ∧ c ≠ '\x7b') ∧ c.isDigit = false ∧ (Text.isAlphabetic c || c = '_') = false)
    (h : mark? c (rest.head?.map Prod.fst) = some (mark, both)) :
    symbol c p rest = .ok (mark, if both then rest.drop 1 else rest) := by
  obtain ⟨⟨hquote, hbracket, hbrace⟩, hdigit, hletter⟩ := hc
  unfold symbol
  rw [if_neg hquote, if_neg hbracket, if_neg hbrace, hdigit, if_neg Bool.false_ne_true, hletter,
    if_neg Bool.false_ne_true, h]

theorem mark_first : ∀ e ∈ markTexts, (e.2.1 ≠ '\'' ∧ e.2.1 ≠ '[' ∧ e.2.1 ≠ '\x7b') ∧ e.2.1.isDigit = false ∧
    (Text.isAlphabetic e.2.1 || e.2.1 = '_') = false ∧ Text.isBlank e.2.1 = false ∧ e.2.1 ≠ '/' := by
  decide +kernel

/-- A mark is read as such if it does not go on after its text. -/
theorem mark?_eq_some : ∀ e ∈ markTexts, ∀ x : Option Char, (∀ d ∈ e.2.2, x = some d) →
    (e.2.2 = none → ∀ d ∈ x, e.1.goesOn d = false) → mark? e.2.1 x = some (e.1, e.2.2.isSome) := by
  simp only [markTexts, List.forall_mem_cons]
  and_intros
  all_goals
    intro x hafter hnext
    cases x <;> simp_all [mark?, Symbol.goesOn]

theorem isBlank_eq_false_of_isNameChar {c : Char} (h : isNameChar c = true) : Text.isBlank c = false := by
  cases hblank : Text.isBlank c with
  | false => rfl
  | true =>
    rw [isNameChar_eq_false_of_isBlank hblank] at h
    cases h

/-- The text of a symbol is read as the symbol, if it does not go on after the text. It begins neither with white space nor
with a comment. -/
theorem symbol_of_hasText {found : Symbol} {w next : List Char} (h : found.HasText w)
    (hnext : ∀ c ∈ next.head?, found.goesOn c = false) {s rest : Located} (hs : s.map Prod.fst = w)
    (hrest : rest.map Prod.fst = next) :
    ∃ c p t, s = (c, p) :: t ∧ Text.isBlank c = false ∧ c ≠ '/' ∧ symbol c p (t ++ rest) = .ok (found, rest) := by
  cases h with
  | @word c word hc hword =>
    obtain ⟨p, t, rfl, rfl⟩ := exists_cons_of_map hs
    have hgoes : ∀ d ∈ (rest.map Prod.fst).head?, isNameChar d = false := by
      rw [hrest]
      intro d hd
      have hstop := hnext d hd
      unfold wordSymbol at hstop
      -- A token and a rule of the parser have names of the same characters.
      split at hstop
      · exact hstop
      · exact hstop
    have hname : isNameChar c = true := by
      rcases Bool.or_eq_true_iff.mp hc with h | h
      · simp [isNameChar, h]
      · simp [isNameChar, of_decide_eq_true h]
    have hslash : c ≠ '/' := by
      rintro rfl
      revert hc
      decide +kernel
    refine ⟨c, p, t, rfl, isBlank_eq_false_of_isNameChar hname, hslash, ?_⟩
    rw [symbol_of_letter hc, spanOf_append hword hgoes]
  | @literal marks w h =>
    obtain ⟨p, t, rfl, ht⟩ := exists_cons_of_map hs
    refine ⟨_, p, t, rfl, by decide, by decide, ?_⟩
    unfold symbol
    rw [if_pos rfl, reads_literal h [] t rest ht]
    rfl
  | @set items marks w hne hitems h =>
    obtain ⟨p, t, rfl, ht⟩ := exists_cons_of_map hs
    refine ⟨_, p, t, rfl, by decide, by decide, ?_⟩
    unfold symbol
    rw [if_neg (by decide), if_pos rfl, reads_set hne hitems h t rest ht]
    rfl
  | @action body h =>
    obtain ⟨p, t, rfl, ht⟩ := exists_cons_of_map hs
    refine ⟨_, p, t, rfl, by decide, by decide, ?_⟩
    unfold symbol
    rw [if_neg (by decide), if_neg (by decide), if_pos rfl, reads_action h [] t rest ht]
    rfl
  | @integer d digits hdigits hmax =>
    obtain ⟨p, t, rfl, rfl⟩ := exists_cons_of_map hs
    obtain ⟨hd, hdigits⟩ := List.forall_mem_cons.mp hdigits
    have hgoes : ∀ c ∈ (rest.map Prod.fst).head?, c.isDigit = false := by
      rw [hrest]
      exact hnext
    have hother (c : Char) (hc : c.isDigit = false) : d ≠ c := by
      rintro rfl
      rw [hd] at hc
      cases hc
    have hname : isNameChar d = true := by simp [isNameChar, Text.isNumeric_of_isDigit hd]
    refine ⟨d, p, t, rfl, isBlank_eq_false_of_isNameChar hname, hother _ (by decide), ?_⟩
    unfold symbol
    rw [if_neg (hother _ (by decide)), if_neg (hother _ (by decide)), if_neg (hother _ (by decide)), if_pos hd,
      spanOf_append hdigits hgoes, if_pos hmax]
  | @mark _ c after? h =>
    obtain ⟨p, t, rfl, ht⟩ := exists_cons_of_map hs
    obtain ⟨hfirst, hdigit, hletter, hblank, hslash⟩ := mark_first _ h
    refine ⟨c, p, t, rfl, hblank, hslash, ?_⟩
    have hhead : rest.head?.map Prod.fst = next.head? := by rw [← hrest, List.head?_map]
    cases after? with
    | none =>
      obtain rfl := List.map_eq_nil_iff.mp ht
      have hmark := mark?_eq_some _ h next.head? (by simp) fun _ => hnext
      rw [← hhead] at hmark
      exact @symbol_of_mark c p rest _ false ⟨hfirst, hdigit, hletter⟩ hmark
    | some d =>
      obtain ⟨q, rfl⟩ := exists_singleton_of_map ht
      have hmark := mark?_eq_some _ h (some d) (by simp) (by simp)
      exact @symbol_of_mark c p ((d, q) :: rest) _ true ⟨hfirst, hdigit, hletter⟩ hmark

/-! ## Sources -/

theorem skipTrivia_gap {gap : Located} (h : ∀ c ∈ gap.map Prod.fst, Text.isBlank c = true) (s : Located) :
    skipTrivia (gap ++ s) = skipTrivia s := by
  induction gap with
  | nil => rfl
  | cons x gap ih =>
    obtain ⟨c, p⟩ := x
    obtain ⟨hc, hgap⟩ := List.forall_mem_cons.mp h
    have hslash : c ≠ '/' := by
      rintro rfl
      exact Bool.false_ne_true hc
    rw [← ih hgap, List.cons_append, skipTrivia]
    · simp only [hc, if_true]
    · intro _ _ _ heq
      exact absurd heq (by simpa using hslash)
    · intro _ _ _ heq
      exact absurd heq (by simpa using hslash)

theorem skipTrivia_cons {c : Char} (hblank : Text.isBlank c = false) (hslash : c ≠ '/') (p : Position) (s : Located) :
    skipTrivia ((c, p) :: s) = .ok ((c, p) :: s) := by
  rw [skipTrivia]
  · simp [hblank]
  · intro _ _ _ heq
    exact absurd heq (by simpa using hslash)
  · intro _ _ _ heq
    exact absurd heq (by simpa using hslash)

/-- A text of symbols is read as the symbols. -/
theorem exists_symbolsFrom_of_spells {symbols : List Symbol} {text : List Char} (h : Spells symbols text)
    (done : List (Symbol × Position)) {s : Located} (hs : s.map Prod.fst = text) :
    ∃ placed, symbolsFrom done s = .ok (done.reverse ++ placed) ∧ placed.map Prod.fst = symbols := by
  induction h generalizing done s with
  | @nil gap hgap =>
    subst hs
    have hskip : skipTrivia s = .ok [] := by
      have := skipTrivia_gap hgap []
      rw [List.append_nil] at this
      rw [this, skipTrivia]
    refine ⟨[], ?_, rfl⟩
    rw [symbolsFrom]
    split
    · next h => cases h.symm.trans hskip
    · simp
    · next h => cases h.symm.trans hskip
  | @cons found symbols gap w next hgap hw hnext _ ih =>
    obtain ⟨s₁, s₂, rfl, rfl, hs₂⟩ := List.map_eq_append_iff.mp hs
    obtain ⟨s₂, s₃, rfl, hs₂, hs₃⟩ := List.map_eq_append_iff.mp hs₂
    obtain ⟨c, p, t, rfl, hblank, hslash, hread⟩ := symbol_of_hasText hw hnext hs₂ hs₃
    obtain ⟨placed, hplaced, hfst⟩ := ih ((found, p) :: done) hs₃
    have hskip : skipTrivia (s₁ ++ ((c, p) :: t ++ s₃)) = .ok ((c, p) :: (t ++ s₃)) := by
      rw [skipTrivia_gap hgap, List.cons_append, skipTrivia_cons hblank hslash]
    refine ⟨(found, p) :: placed, ?_, by rw [List.map_cons, hfst]⟩
    rw [symbolsFrom]
    split
    · next h => cases h.symm.trans hskip
    · next h => cases h.symm.trans hskip
    · next c' p' rest h =>
      rw [hskip] at h
      cases h
      split
      · next found' rest h =>
        rw [hread] at h
        cases h
        rw [hplaced]
        simp
      · next h => cases h.symm.trans hread

theorem map_fst_locateFrom (p : Position) (done : List (Char × Position)) (s : List Char) :
    (Position.locateFrom p done s).map Prod.fst = (done.map Prod.fst).reverse ++ s := by
  induction s generalizing p done with
  | nil => simp [Position.locateFrom]
  | cons c s ih => simp [Position.locateFrom, ih]

/-- A source that spells symbols is read as the symbols. -/
theorem exists_symbols_of_spells {found : List Symbol} {source : String} (h : Spells found source.toList) :
    ∃ placed, symbols source = .ok placed ∧ placed.map Prod.fst = found := by
  obtain ⟨placed, hplaced, hfst⟩ := exists_symbolsFrom_of_spells h [] (map_fst_locateFrom .start [] source.toList)
  refine ⟨placed, ?_, hfst⟩
  have hread : symbolsFrom [] (Position.locate source.toList) = .ok placed := hplaced
  unfold symbols
  dsimp only
  rw [hread]

/-! ## Every symbol can be spelled -/

theorem exists_escaped (inSet : Bool) (c : Char) : ∃ w, Escaped inSet c w := by
  obtain ⟨hdigits, hvalue⟩ := Pattern.digitsValue_toDigits c.toNat
  exact ⟨_, .braced hdigits (by simp [Nat.toDigits_ne_nil]) hvalue⟩

/-- Characters can be spelled if those that are not escaped stand for themselves. -/
theorem exists_spelled {inSet : Bool} {marks : List (Char × Bool)}
    (h : ∀ m ∈ marks, m.2 = false → isSpecial inSet m.1 = false) : ∃ w, Spelled inSet marks w := by
  induction marks with
  | nil => exact ⟨[], .nil⟩
  | cons m marks ih =>
    obtain ⟨hm, hmarks⟩ := List.forall_mem_cons.mp h
    obtain ⟨w, hw⟩ := ih hmarks
    obtain ⟨c, _ | _⟩ := m
    · exact ⟨c :: w, .verbatim (hm rfl) hw⟩
    · obtain ⟨v, hv⟩ := exists_escaped inSet c
      exact ⟨'\\' :: (v ++ w), .escaped hv hw⟩

/-- The characters of the items of a set, all of them escaped but the hyphens of the ranges. -/
def escapedMarks (items : List SetItem) : List (Char × Bool) :=
  items.flatMap fun
    | .single c => [(c, true)]
    | .range low high => [(low, true), ('-', false), (high, true)]

theorem itemized_escapedMarks {items : List SetItem} (h : ∀ item ∈ items, item.Ordered) :
    Itemized items (escapedMarks items) := by
  induction items with
  | nil => exact .nil
  | cons item items ih =>
    obtain ⟨hitem, hitems⟩ := List.forall_mem_cons.mp h
    cases item with
    | single c =>
      refine .single (ih hitems) fun x rest heq => ?_
      cases items with
      | nil => cases heq
      | cons item items => cases item <;> cases heq
    | range low high => exact .range hitem (ih hitems)

theorem exists_spelled_set {items : List SetItem} (h : ∀ item ∈ items, item.Ordered) :
    ∃ marks w, Itemized items marks ∧ Spelled true marks w := by
  have hmarks : ∀ m ∈ escapedMarks items, m.2 = false → isSpecial true m.1 = false := by
    intro m hm hplain
    obtain ⟨item, -, hm⟩ := List.mem_flatMap.mp hm
    cases item with
    | single c =>
      obtain rfl := List.mem_singleton.mp hm
      cases hplain
    | range low high =>
      obtain rfl : m = ('-', false) := by
        rcases List.mem_cons.mp hm with rfl | hm
        · cases hplain
        · rcases List.mem_cons.mp hm with rfl | hm
          · rfl
          · obtain rfl := List.mem_singleton.mp hm
            cases hplain
      decide
  obtain ⟨w, hw⟩ := exists_spelled hmarks
  exact ⟨_, w, itemized_escapedMarks h, hw⟩

namespace Symbol

variable {s : Symbol}

theorem exists_hasText_literal (text : String) : ∃ w, (Symbol.literal text).HasText w := by
  obtain ⟨w, hw⟩ := @exists_spelled false (text.toList.map fun c => (c, true)) (by simp)
  have htext : String.ofList ((text.toList.map fun c => (c, true)).map Prod.fst) = text := by
    rw [List.map_map, show Prod.fst ∘ (fun c : Char => (c, true)) = id from rfl, List.map_id, String.ofList_toList]
  exact ⟨_, htext ▸ HasText.literal hw⟩

theorem exists_hasText_set {items : List SetItem} (h : ValidItems items) : ∃ w, (Symbol.set items).HasText w := by
  obtain ⟨marks, w, hitems, hw⟩ := exists_spelled_set h.2
  exact ⟨_, .set h.1 hitems hw⟩

theorem isDigit_digitChar : ∀ n < 10, (Nat.digitChar n).isDigit = true ∧ (Nat.digitChar n).toNat - '0'.toNat = n := by
  decide

theorem exists_hasText_integer {n : Nat} (h : n ≤ maxInteger) : ∃ w, (Symbol.integer n).HasText w := by
  obtain ⟨hdigits, hvalue⟩ := @Pattern.digitsValue_map_toDigits 10 (by decide) id Char.isDigit
    (fun c => c.toNat - '0'.toNat) isDigit_digitChar n
  rw [List.map_id] at hdigits hvalue
  obtain ⟨d, digits, heq⟩ := List.exists_cons_of_ne_nil (@Nat.toDigits_ne_nil n 10)
  rw [heq] at hdigits hvalue
  have hvalue : decimalValue (d :: digits) = n := hvalue
  subst hvalue
  exact ⟨_, .integer hdigits h⟩

end Symbol

/-- Symbols that have texts can be spelled, with a blank before each of them. -/
theorem exists_spells {symbols : List Symbol} (h : ∀ s ∈ symbols, ∃ w, s.HasText w) :
    ∃ text, Spells symbols (' ' :: text) := by
  have hblank : ∀ c ∈ [' '], Text.isBlank c = true := List.forall_mem_singleton.mpr (by decide)
  induction symbols with
  | nil => exact ⟨[], .nil hblank⟩
  | cons s symbols ih =>
    obtain ⟨⟨w, hw⟩, hsymbols⟩ := List.forall_mem_cons.mp h
    obtain ⟨text, htext⟩ := ih hsymbols
    have hspace : s.goesOn ' ' = false := by
      have hname : isNameChar ' ' = false := by decide +kernel
      cases s <;> simp [Symbol.goesOn, hname]
    exact ⟨w ++ ' ' :: text, .cons hblank hw (by simpa using hspace) htext⟩

end Lexeme.Grammar
