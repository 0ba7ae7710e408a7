import Lexeme.Python.Vocabulary
import Lexeme.Segment
import Lexeme.Text.Alphabetic
import Lexeme.Text.Numeric

/-!
# Cutting a Python text

Every character of the text goes into exactly one segment. Only two kinds of segment can be empty: a block that ends
is marked by an empty `dedent`, and a last line without a line break by an empty `newline`.

Each function that finds the next segment splits it off the text, and the lemma beside it says that nothing is lost:
what it takes and what it leaves make up the text. The run over the whole text keeps the widths of the open blocks,
the number of open brackets, and whether the current line has shown a token yet.
-/

namespace Lexeme.Python

/-- A beginning of a text and what follows it. -/
abbrev Split := List Char × List Char

/-- Takes what `p` accepts. -/
def spanOf (p : Char → Bool) (s : List Char) : Split := (s.takeWhile p, s.dropWhile p)

theorem spanOf_append (p : Char → Bool) (s : List Char) : (spanOf p s).1 ++ (spanOf p s).2 = s :=
  List.takeWhile_append_dropWhile

/-- Takes a beginning and then, from what follows, another. -/
def Split.andThen (first : Split) (second : List Char → Split) : Split :=
  (first.1 ++ (second first.2).1, (second first.2).2)

theorem Split.andThen_append {first : Split} {second : List Char → Split} {s : List Char}
    (hfirst : first.1 ++ first.2 = s) (hsecond : ∀ t, (second t).1 ++ (second t).2 = t) :
    (first.andThen second).1 ++ (first.andThen second).2 = s := by
  simp [Split.andThen, hsecond, hfirst]

/-! ## Blanks -/

def isBlank (c : Char) : Bool := c = ' ' || c = '\t' || c = '\x0c'

def isLineBreak (c : Char) : Bool := c = '\n' || c = '\r'

/-- Takes one line break; a carriage return with a line feed after it is one. -/
def lineBreak : List Char → Split
  | '\r' :: '\n' :: rest => (['\r', '\n'], rest)
  | c :: rest => ([c], rest)
  | [] => ([], [])

theorem lineBreak_append (s : List Char) : (lineBreak s).1 ++ (lineBreak s).2 = s := by
  fun_cases lineBreak s <;> rfl

/-- The width of the white space before the first token of a line. A tab leads to the next multiple of eight, and a
form feed begins the line anew. -/
def indentWidth (space : List Char) : Nat :=
  space.foldl (fun width c => if c = '\t' then (width / 8 + 1) * 8 else if c = '\x0c' then 0 else width + 1) 0

/-! ## Strings -/

def isQuote (c : Char) : Bool := c = '\'' || c = '"'

/-- The letters that may stand before a quote, in lower case. -/
def stringPrefixes : List (List Char) :=
  [['b', 'r'], ['r', 'b'], ['f', 'r'], ['r', 'f'], ['r'], ['u'], ['b'], ['f']]

/-- Whether a quote follows the letters `mark`, in either case, at the beginning of a text. -/
def opensWith (s mark : List Char) : Bool :=
  (s.take mark.length).map Char.toLower = mark && (s.drop mark.length).head?.any isQuote

/-- The letters before the quote, if a string begins the text. -/
def stringPrefix? (s : List Char) : Option (List Char) :=
  if s.head?.any isQuote then some []
  else (stringPrefixes.find? (opensWith s)).map fun mark => s.take mark.length

/-- Reads on to the closing quotes of a string; `done` holds the string so far, backwards. A backslash keeps the
character after it from meaning anything. -/
def closeString (quote : Char) (triple : Bool) (done : List Char) : List Char → Option Split
  | [] => none
  | '\\' :: c :: rest => closeString quote triple (c :: '\\' :: done) rest
  | c :: rest =>
    if c = '\\' then none
    else if isLineBreak c && !triple then none
    else if c = quote then
      if !triple then some ((c :: done).reverse, rest)
      else if rest.take 2 = [quote, quote] then some ((quote :: quote :: c :: done).reverse, rest.drop 2)
      else closeString quote triple (c :: done) rest
    else closeString quote triple (c :: done) rest
termination_by s => s.length

theorem closeString_append {quote : Char} {triple : Bool} {done s : List Char} {split : Split}
    (h : closeString quote triple done s = some split) : split.1 ++ split.2 = done.reverse ++ s := by
  fun_induction closeString quote triple done s with
  | case6 done rest _ _ _ hclose =>
    obtain rfl := Option.some.inj h
    have := List.take_append_drop 2 rest
    simp_all
  | _ => simp_all <;> subst h <;> simp

/-- Takes the string that begins with the given letters. Three quotes open a string that only three quotes close. -/
def stringLiteral? (mark s : List Char) : Option Split :=
  match s.drop mark.length with
  | [] => none
  | quote :: body =>
    if body.take 2 = [quote, quote] then
      closeString quote true (mark ++ [quote, quote, quote]).reverse (body.drop 2)
    else closeString quote false (mark ++ [quote]).reverse body

theorem stringLiteral?_append {mark s : List Char} {split : Split} (hmark : s.take mark.length = mark)
    (h : stringLiteral? mark s = some split) : split.1 ++ split.2 = s := by
  have hs : mark ++ s.drop mark.length = s := by
    have := List.take_append_drop mark.length s
    rwa [hmark] at this
  unfold stringLiteral? at h
  split at h
  · simp at h
  · next quote body hbody =>
    rw [hbody] at hs
    split at h
    · next hopen =>
      have := List.take_append_drop 2 body
      have := closeString_append h
      simp_all
    · have := closeString_append h
      simp_all

/-! ## Numbers -/

def isDecimal (c : Char) : Bool := c.isDigit || c = '_'

/-- The digits of a number to the base that the letter after a leading zero names. -/
def radixDigit? : Char → Option (Char → Bool)
  | 'x' | 'X' => some fun c => c.isDigit || ('a' ≤ c && c ≤ 'f') || ('A' ≤ c && c ≤ 'F')
  | 'o' | 'O' => some fun c => '0' ≤ c && c ≤ '7'
  | 'b' | 'B' => some fun c => c = '0' || c = '1'
  | _ => none

/-- Takes a point and the digits after it. -/
def fraction : List Char → Split
  | '.' :: s => ('.' :: (spanOf isDecimal s).1, (spanOf isDecimal s).2)
  | s => ([], s)

theorem fraction_append (s : List Char) : (fraction s).1 ++ (fraction s).2 = s := by
  fun_cases fraction s <;> simp [spanOf_append]

/-- Takes the digits of an exponent after what comes before them, if there are any. -/
def exponentDigits (before s : List Char) : Split :=
  match spanOf isDecimal s with
  | ([], _) => ([], before ++ s)
  | (digits, rest) => (before ++ digits, rest)

theorem exponentDigits_append (before s : List Char) :
    (exponentDigits before s).1 ++ (exponentDigits before s).2 = before ++ s := by
  have h := spanOf_append isDecimal s
  unfold exponentDigits
  split <;> simp_all

/-- Takes an exponent. -/
def exponent : List Char → Split
  | e :: sign :: s =>
    if e = 'e' ∨ e = 'E' then
      if sign = '+' ∨ sign = '-' then exponentDigits [e, sign] s else exponentDigits [e] (sign :: s)
    else ([], e :: sign :: s)
  | s => ([], s)

theorem exponent_append (s : List Char) : (exponent s).1 ++ (exponent s).2 = s := by
  fun_cases exponent s <;> simp [exponentDigits_append]

/-- Takes the letter of an imaginary number. -/
def imaginary : List Char → Split
  | 'j' :: s => (['j'], s)
  | 'J' :: s => (['J'], s)
  | s => ([], s)

theorem imaginary_append (s : List Char) : (imaginary s).1 ++ (imaginary s).2 = s := by
  fun_cases imaginary s <;> rfl

def decimal (s : List Char) : Split :=
  (((spanOf isDecimal s).andThen fraction).andThen exponent).andThen imaginary

theorem decimal_append (s : List Char) : (decimal s).1 ++ (decimal s).2 = s :=
  Split.andThen_append
    (Split.andThen_append (Split.andThen_append (spanOf_append _ _) fraction_append) exponent_append) imaginary_append

/-- Takes a number. The letter of a base counts only if the text goes on after it. -/
def number : List Char → Split
  | '0' :: letter :: next :: s =>
    match radixDigit? letter with
    | some isDigit =>
      let digits := spanOf (fun c => isDigit c || c = '_') (next :: s)
      ('0' :: letter :: digits.1, digits.2)
    | none => decimal ('0' :: letter :: next :: s)
  | s => decimal s

theorem number_append (s : List Char) : (number s).1 ++ (number s).2 = s := by
  fun_cases number s
  · next digits => exact congrArg (_ :: _ :: ·) (spanOf_append _ _)
  · exact decimal_append _
  · exact decimal_append _

/-- Whether a number begins here. -/
def beginsNumber : List Char → Bool
  | '.' :: c :: _ => c.isDigit
  | c :: _ => c.isDigit
  | [] => false

/-! ## Words and operators -/

def isWordStart (c : Char) : Bool := Text.isAlphabetic c || c = '_'

def isWordChar (c : Char) : Bool := Text.isAlphabetic c || Text.isNumeric c || c = '_'

/-- What a word is. -/
def wordKind (word : List Char) : Kind :=
  match keywords.idxOf? (String.ofList word) with
  | some index => .keyword index
  | none => .name

/-- The operators with their places, longer ones first. -/
def operatorsByLength : List (List Char × Nat) :=
  (operators.zipIdx.map fun (o, index) => (o.toList, index)).mergeSort fun a b => b.1.length ≤ a.1.length

/-- The longest operator that begins a text. -/
def operator? (s : List Char) : Option (List Char × Nat) :=
  operatorsByLength.find? fun o => o.1.isPrefixOf s

/-! ## Segments -/

/-- Why a text cannot be cut any further. -/
inductive Failure where
  | noViableAlternative (c : Char)
  | unterminatedString
  | inconsistentDedent
deriving DecidableEq, Repr

/-- What the lexer remembers of the text before. `levels` are the widths of the open blocks, innermost first; the
outermost block, of width zero, is not listed. -/
structure State where
  levels : List Nat
  brackets : Nat
  lineStart : Bool
  shown : Bool
deriving DecidableEq, Repr

/-- At the beginning of a text. -/
def State.initial : State := ⟨[], 0, true, false⟩

/-- The width of the innermost block. -/
def State.width (st : State) : Nat := st.levels.head?.getD 0

/-- The next segment, what the lexer remembers after it, and the text that follows it. -/
abbrev Next := Segment Kind × State × List Char

/-- A segment of some kind that is seen. -/
def State.reveal (st : State) (kind : Kind) (split : Split) : Next :=
  (⟨kind, split.1⟩, { st with shown := true }, split.2)

/-- A segment that is not seen. -/
def State.hide (st : State) (kind : Kind) (split : Split) : Next :=
  (⟨kind, split.1⟩, st, split.2)

/-- A line break ends a line that has shown a token; inside brackets, and on a line without tokens, it is a blank. -/
def State.endLine (st : State) (split : Split) : Next :=
  if st.brackets = 0 ∧ st.shown then
    (⟨.newline, split.1⟩, { st with lineStart := true, shown := false }, split.2)
  else (⟨.skip, split.1⟩, { st with lineStart := st.brackets = 0 }, split.2)

/-- Keeps count of the open brackets. A closing bracket without an opening one counts for nothing. -/
def State.countBracket (st : State) (operator : List Char) : State :=
  if operator = ['('] ∨ operator = ['['] ∨ operator = ['\x7b'] then { st with brackets := st.brackets + 1 }
  else if operator = [')'] ∨ operator = [']'] ∨ operator = ['\x7d'] then { st with brackets := st.brackets - 1 }
  else st

/-- The next token of a line, at a text `s` that begins with `c`, which is neither blank nor a line break. -/
def content (st : State) (c : Char) (s : List Char) : Except Failure Next :=
  match stringPrefix? s with
  | some mark =>
    match stringLiteral? mark s with
    | some split => .ok (st.reveal .string split)
    | none => .error .unterminatedString
  | none =>
    if beginsNumber s then .ok (st.reveal .number (number s))
    else if isWordStart c then
      .ok (st.reveal (wordKind (spanOf isWordChar s).1) (spanOf isWordChar s))
    else
      match operator? s with
      | some (operator, index) =>
        .ok ((st.countBracket operator).reveal (.operator index) (operator, s.drop operator.length))
      | none => .error (.noViableAlternative c)

/-- The next segment inside a line. -/
def next (st : State) (c : Char) (rest : List Char) : Except Failure Next :=
  if isLineBreak c then .ok (st.endLine (lineBreak (c :: rest)))
  else if isBlank c then .ok (st.hide .skip (spanOf isBlank (c :: rest)))
  else if c = '\\' ∧ rest.head?.any isLineBreak then
    .ok (st.hide .skip (c :: (lineBreak rest).1, (lineBreak rest).2))
  else if c = '#' then .ok (st.hide .comment (spanOf (!isLineBreak ·) (c :: rest)))
  else content st c (c :: rest)

/-- What the white space at the beginning of a line amounts to: its segments, the open blocks after it, and whether
its width is that of an open block. A line without tokens leaves the blocks as they are. -/
def indentation (levels : List Nat) (space rest : List Char) : List (Segment Kind) × List Nat × Bool :=
  let current := levels.head?.getD 0
  let width := indentWidth space
  let blank := if space = [] then [] else [⟨.skip, space⟩]
  if rest.head?.all (fun c => isLineBreak c || c = '#') ∨ width = current then (blank, levels, true)
  else if current < width then ([⟨.indent, space⟩], width :: levels, true)
  else
    let kept := levels.dropWhile (width < ·)
    (blank ++ List.replicate (levels.length - kept.length) ⟨.dedent, []⟩, kept, kept.head?.getD 0 = width)

/-- The segments at the end of the text: the line that is not ended, and the blocks that are still open. -/
def finish (st : State) : List (Segment Kind) :=
  (if st.shown then [⟨.newline, []⟩] else []) ++ List.replicate st.levels.length ⟨.dedent, []⟩

/-! ## Every segment inside a line is a beginning of the text, and not empty -/

theorem lineBreak_ne_nil (c : Char) (s : List Char) : (lineBreak (c :: s)).1 ≠ [] := by
  unfold lineBreak
  split <;> simp_all

theorem spanOf_ne_nil {p : Char → Bool} {c : Char} (h : p c = true) (s : List Char) :
    (spanOf p (c :: s)).1 ≠ [] := by
  simp [spanOf, h]

theorem closeString_ne_nil {quote : Char} {triple : Bool} {done s : List Char} {split : Split}
    (h : closeString quote triple done s = some split) : split.1 ≠ [] := by
  fun_induction closeString quote triple done s <;> simp_all <;> subst h <;> simp

theorem stringLiteral?_ne_nil {mark s : List Char} {split : Split} (h : stringLiteral? mark s = some split) :
    split.1 ≠ [] := by
  unfold stringLiteral? at h
  grind [→ closeString_ne_nil]

theorem andThen_ne_nil {first : Split} {second : List Char → Split} (h : first.1 ≠ []) :
    (first.andThen second).1 ≠ [] := by
  simp [Split.andThen, h]

theorem number_ne_nil {s : List Char} (h : beginsNumber s = true) : (number s).1 ≠ [] := by
  have hdecimal : ∀ t, beginsNumber t = true → (decimal t).1 ≠ [] := by
    intro t ht
    refine andThen_ne_nil (andThen_ne_nil ?_)
    unfold beginsNumber at ht
    split at ht
    · next d _ =>
      have : isDecimal '.' = false := by decide
      simp [Split.andThen, spanOf, fraction, this]
    · next d _ _ =>
      exact andThen_ne_nil (spanOf_ne_nil (by simp [isDecimal, ht]) _)
    · simp at ht
  fun_cases number s
  · simp
  · exact hdecimal _ h
  · exact hdecimal _ h

theorem ne_nil_of_mem_operators {o : List Char × Nat} (h : o ∈ operatorsByLength) : o.1 ≠ [] := by
  obtain ⟨⟨text, index⟩, hmem, rfl⟩ := List.mem_map.mp (List.mem_mergeSort.mp h)
  have hall : ∀ text ∈ operators, text.toList ≠ [] := by decide
  exact hall text (List.fst_mem_of_mem_zipIdx hmem)

theorem operator?_append {s : List Char} {o : List Char × Nat} (h : operator? s = some o) :
    o.1 ++ s.drop o.1.length = s ∧ o.1 ≠ [] := by
  unfold operator? at h
  have hprefix := List.find?_some h
  obtain ⟨t, rfl⟩ := List.isPrefixOf_iff_prefix.mp hprefix
  exact ⟨by simp, ne_nil_of_mem_operators (List.mem_of_find?_eq_some h)⟩

theorem stringPrefix?_take {s mark : List Char} (h : stringPrefix? s = some mark) :
    s.take mark.length = mark := by
  unfold stringPrefix? at h
  split at h
  · obtain rfl := Option.some.inj h
    rfl
  · obtain ⟨m, -, rfl⟩ := Option.map_eq_some_iff.mp h
    simp

/-- A segment that is the beginning of `s`, with the rest of `s` after it, and not empty. -/
def Next.Begins (n : Next) (s : List Char) : Prop :=
  n.1.text ++ n.2.2 = s ∧ n.1.text ≠ []

theorem content_begins {st : State} {c : Char} {rest : List Char} {n : Next}
    (h : content st c (c :: rest) = .ok n) : n.Begins (c :: rest) := by
  unfold content at h
  split at h
  · next mark hmark =>
    split at h
    · next split hsplit =>
      obtain rfl := Except.ok.inj h
      exact ⟨stringLiteral?_append (stringPrefix?_take hmark) hsplit, stringLiteral?_ne_nil hsplit⟩
    · cases h
  · split at h
    · next hnumber =>
      obtain rfl := Except.ok.inj h
      exact ⟨number_append _, number_ne_nil hnumber⟩
    · split at h
      · next hword =>
        obtain rfl := Except.ok.inj h
        refine ⟨spanOf_append _ _, spanOf_ne_nil ?_ _⟩
        simp only [isWordStart, Bool.or_eq_true] at hword
        rcases hword with hword | hword <;> simp [isWordChar, hword]
      · split at h
        · next operator index hop =>
          obtain rfl := Except.ok.inj h
          exact operator?_append hop
        · cases h

theorem next_begins {st : State} {c : Char} {rest : List Char} {n : Next} (h : next st c rest = .ok n) :
    n.Begins (c :: rest) := by
  unfold next at h
  split at h
  · obtain rfl := Except.ok.inj h
    unfold State.endLine
    split <;> exact ⟨lineBreak_append _, lineBreak_ne_nil _ _⟩
  · split at h
    · next hblank =>
      obtain rfl := Except.ok.inj h
      exact ⟨spanOf_append _ _, spanOf_ne_nil hblank _⟩
    · split at h
      · obtain rfl := Except.ok.inj h
        exact ⟨congrArg (c :: ·) (lineBreak_append rest), by simp [State.hide]⟩
      · split at h
        · next hcomment =>
          obtain rfl := Except.ok.inj h
          exact ⟨spanOf_append _ _, spanOf_ne_nil (p := (!isLineBreak ·)) (by simp [hcomment, isLineBreak]) _⟩
        · exact content_begins h

theorem Next.Begins.length_lt {n : Next} {s : List Char} (h : n.Begins s) : n.2.2.length < s.length := by
  have := List.length_pos_iff.mpr h.2
  rw [← h.1, List.length_append]
  omega

/-! ## The run -/

/-- Cuts a text; `done` holds the segments before it, last first. The beginning of a line is looked at before the
first token on it. -/
def cutFrom (st : State) (done : List (Segment Kind)) (s : List Char) : Cut Kind Failure :=
  match s with
  | [] => ⟨((finish st).reverse ++ done).reverse, none⟩
  | c :: rest =>
    if _ : st.lineStart then
      let space := spanOf isBlank (c :: rest)
      let (found, levels, consistent) := indentation st.levels space.1 space.2
      let shown := st.shown || st.levels.length < levels.length
      if consistent then cutFrom ⟨levels, st.brackets, false, shown⟩ (found.reverse ++ done) space.2
      else ⟨(found.reverse ++ done).reverse, some .inconsistentDedent⟩
    else
      match _ : next st c rest with
      | .ok (segment, st, after) => cutFrom st (segment :: done) after
      | .error e => ⟨done.reverse, some e⟩
termination_by 2 * s.length + st.lineStart.toNat
decreasing_by
  · have hspace : (spanOf isBlank (c :: rest)).2.length ≤ (c :: rest).length :=
      (List.dropWhile_suffix isBlank).length_le
    simp only [‹st.lineStart = true›, Bool.toNat_true, Bool.toNat_false]
    omega
  · have hafter := (next_begins ‹next _ c rest = .ok (segment, _, after)›).length_lt
    have := Bool.toNat_lt ‹State›.lineStart
    simp only at hafter
    omega

/-- Cuts a whole text. -/
def cut (s : List Char) : Cut Kind Failure := cutFrom .initial [] s

/-- The error that a failure at a position is. -/
def Failure.error (p : Position) : Failure → LexingError
  | noViableAlternative c => .noViableAlternative p (String.singleton c)
  | unterminatedString => .unterminatedString p
  | inconsistentDedent => .inconsistentDedent p

/-- The tokens of a Python text. -/
def tokens (source : String) : Except LexingError (List Token) :=
  (cut source.toList).tokens Kind.place Failure.error

end Lexeme.Python
