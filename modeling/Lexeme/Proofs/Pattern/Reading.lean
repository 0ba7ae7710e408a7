import Lexeme.Grammar.Symbol
import Lexeme.Proofs.Pattern.Rests

/-!
# Reading patterns

The notation of regular expressions, as far as `Pattern.text` uses it, and how it is read back. First the text is cut
into signs (`signs?`), then the signs are put together (`build`): a mark of repetition belongs to the one item before it,
a bar reaches as far as the parentheses around it.

A pattern need not come back as it was, since reading forgets how sequences were nested. But its text is always read,
and what is read matches the same and in the same order (`exists_read_text`), if the pattern has alternatives only
directly inside parentheses and its sets can be written (`Readable`).
-/

namespace Lexeme

/-! ## Sets that can be written -/

/-- Whether the ends of a range are in order. -/
def SetItem.Ordered : SetItem → Prop
  | single _ => True
  | range low high => low ≤ high

/-- Whether a set has members, and all its ranges are in order. -/
def ValidItems (items : List SetItem) : Prop := items ≠ [] ∧ ∀ item ∈ items, item.Ordered

namespace Pattern

/-! ## Signs -/

/-- A sign of the notation. -/
inductive Sign where
  | char (c : Char)
  | set (negated : Bool) (items : List SetItem)
  | any
  | opening
  | closing
  | bar
  | mark (quantifier : Quantifier) (greedy : Bool)
deriving Repr

/-- The character whose code point has the given digits to base sixteen. -/
def charOfDigits? (digits : List Char) : Option Char :=
  let n := Grammar.digitsValue 16 Grammar.hexDigitValue digits
  if digits ≠ [] ∧ n.isValidChar then some (Char.ofNat n) else none

/-- Reads the escape of a character. -/
def escape? : List Char → Option (Char × List Char)
  | '\\' :: 'x' :: '\x7b' :: rest =>
    match rest.dropWhile Grammar.isHexDigit with
    | '\x7d' :: after => (charOfDigits? (rest.takeWhile Grammar.isHexDigit)).map (·, after)
    | _ => none
  | _ => none

theorem escape?_length {s rest : List Char} {c : Char} (h : escape? s = some (c, rest)) : rest.length < s.length := by
  unfold escape? at h
  split at h
  · next digits =>
    split at h
    · next after hafter =>
      have hle := (List.dropWhile_suffix Grammar.isHexDigit (l := digits)).length_le
      obtain ⟨d, -, hd⟩ := Option.map_eq_some_iff.mp h
      rw [← (Prod.mk.inj hd).2]
      rw [hafter] at hle
      simp only [List.length_cons] at *
      omega
    · cases h
  · cases h

/-- Reads the items of a set up to its closing bracket; `done` holds those before, last first. -/
def items? (done : List SetItem) (s : List Char) : Option (List SetItem × List Char) :=
  match s with
  | ']' :: rest => if done.isEmpty then none else some (done.reverse, rest)
  | s =>
    match _ : escape? s with
    | none => none
    | some (low, '-' :: after) =>
      match _ : escape? after with
      | none => none
      | some (high, rest) => if low ≤ high then items? (.range low high :: done) rest else none
    | some (c, rest) => items? (.single c :: done) rest
termination_by s.length
decreasing_by
  · have := escape?_length ‹escape? after = _›
    have := escape?_length ‹escape? s = _›
    simp only [List.length_cons] at *
    omega
  · exact escape?_length ‹escape? s = _›

/-- Reads the mark that makes a repeat lazy. -/
def lazyMark (quantifier : Quantifier) : List Char → Sign × List Char
  | '?' :: rest => (.mark quantifier false, rest)
  | s => (.mark quantifier true, s)

/-- Reads a sign. -/
def sign? : List Char → Option (Sign × List Char)
  | '[' :: '^' :: rest => (items? [] rest).map fun r => (.set true r.1, r.2)
  | '[' :: rest => (items? [] rest).map fun r => (.set false r.1, r.2)
  | '(' :: '?' :: 's' :: ':' :: '.' :: ')' :: rest => some (.any, rest)
  | '(' :: '?' :: ':' :: rest => some (.opening, rest)
  | ')' :: rest => some (.closing, rest)
  | '|' :: rest => some (.bar, rest)
  | '?' :: rest => some (lazyMark .optional rest)
  | '*' :: rest => some (lazyMark .zeroOrMore rest)
  | '+' :: rest => some (lazyMark .oneOrMore rest)
  | s => (escape? s).map fun r => (.char r.1, r.2)

theorem items?_length {done items : List SetItem} {s rest : List Char} (h : items? done s = some (items, rest)) :
    rest.length < s.length := by
  fun_induction items? done s with
  | case1 => cases h
  | case2 => cases h; simp
  | case3 => cases h
  | case4 => cases h
  | case5 done s _ low after hlow high rest' hhigh _ ih =>
    have := escape?_length hlow
    have := escape?_length hhigh
    have := ih h
    simp only [List.length_cons] at *
    omega
  | case6 => cases h
  | case7 done s _ c after _ hc ih =>
    have := escape?_length hc
    have := ih h
    omega

theorem sign?_length {s rest : List Char} {sign : Sign} (h : sign? s = some (sign, rest)) : rest.length < s.length := by
  have hitems {t : List Char} {negated : Bool}
      (h : (items? [] t).map (fun r => (Sign.set negated r.1, r.2)) = some (sign, rest)) : rest.length < t.length := by
    obtain ⟨r, hr, heq⟩ := Option.map_eq_some_iff.mp h
    rw [← (Prod.mk.inj heq).2]
    exact items?_length hr
  have hlazy {t : List Char} {quantifier : Quantifier} (h : some (lazyMark quantifier t) = some (sign, rest)) :
      rest.length ≤ t.length := by
    rw [show rest = (lazyMark quantifier t).2 from (congrArg Prod.snd (Option.some.inj h)).symm]
    unfold lazyMark
    split <;> simp
  unfold sign? at h
  split at h
  · have := hitems h
    simp only [List.length_cons]
    omega
  · have := hitems h
    simp only [List.length_cons]
    omega
  · cases h
    simp only [List.length_cons]
    omega
  · cases h
    simp only [List.length_cons]
    omega
  · cases h
    simp
  · cases h
    simp
  · exact Nat.lt_succ_of_le (hlazy h)
  · exact Nat.lt_succ_of_le (hlazy h)
  · exact Nat.lt_succ_of_le (hlazy h)
  · obtain ⟨r, hr, heq⟩ := Option.map_eq_some_iff.mp h
    rw [← (Prod.mk.inj heq).2]
    exact escape?_length hr

/-- Cuts a text into signs. -/
def signs? (s : List Char) : Option (List Sign) :=
  match s with
  | [] => some []
  | c :: rest =>
    match _ : sign? (c :: rest) with
    | none => none
    | some (sign, rest) => (signs? rest).map (sign :: ·)
termination_by s.length
decreasing_by exact sign?_length ‹sign? _ = _›

/-! ## Putting signs together -/

/-- What has been read inside the innermost open parentheses: the finished alternatives and the items of the current
one, last first. -/
structure Level where
  alternatives : List Pattern
  items : List Pattern

namespace Level

/-- Inside parentheses that have just been opened. -/
def empty : Level := ⟨[], []⟩

/-- After one more item. -/
def push (level : Level) (p : Pattern) : Level := { level with items := p :: level.items }

/-- All alternatives, last first. -/
def finished (level : Level) : List Pattern := concat level.items.reverse :: level.alternatives

/-- The choice among all alternatives. -/
def close (level : Level) : Pattern := choice level.finished.reverse

end Level

/-- Puts signs together; `outer` holds what has been read inside the other open parentheses, innermost first. -/
def build (outer : List Level) (level : Level) : List Sign → Option Pattern
  | [] => if outer.isEmpty then some level.close else none
  | .char c :: rest => build outer (level.push (literal [c])) rest
  | .set negated items :: rest => build outer (level.push (set negated items)) rest
  | .any :: rest => build outer (level.push any) rest
  | .opening :: rest => build (level :: outer) .empty rest
  | .closing :: rest =>
    match outer with
    | [] => none
    | next :: outer => build outer (next.push (group level.close)) rest
  | .bar :: rest => build outer ⟨level.finished, []⟩ rest
  | .mark quantifier greedy :: rest =>
    match level.items with
    | [] => none
    | p :: items => build outer { level with items := repeated quantifier greedy p :: items } rest

/-- Reads a pattern. -/
def read (text : String) : Option Pattern := (signs? text.toList).bind (build [] .empty)

/-- Whether a pattern can be read back from its text: its sets can be written, and a choice stands only where the text
has parentheses around it, or is an alternative of such a choice. -/
def Readable (enclosed : Bool) : Pattern → Prop
  | literal _ => True
  | set _ items => ValidItems items
  | any => True
  | seq p q => p.Readable false ∧ q.Readable false
  | alt p q => enclosed = true ∧ p.Readable false ∧ q.Readable true
  | group p => p.Readable true
  | repeated _ _ p => p.Readable true

/-- Parentheses do no harm. -/
theorem Readable.enclosed {p : Pattern} (h : p.Readable false) : p.Readable true := by
  cases p with
  | alt p q => exact absurd h.1 (by decide)
  | _ => exact h

theorem readable_concat : ∀ {ps : List Pattern}, (∀ p ∈ ps, p.Readable false) → (concat ps).Readable false
  | [], _ => trivial
  | [p], h => h p List.mem_cons_self
  | p :: q :: ps, h => by
    obtain ⟨hp, hps⟩ := List.forall_mem_cons.mp h
    exact ⟨hp, readable_concat hps⟩

theorem readable_choice : ∀ {ps : List Pattern}, (∀ p ∈ ps, p.Readable false) → (choice ps).Readable true
  | [], _ => trivial
  | [p], h => (h p List.mem_cons_self).enclosed
  | p :: q :: ps, h => by
    obtain ⟨hp, hps⟩ := List.forall_mem_cons.mp h
    exact ⟨rfl, hp, readable_choice hps⟩

/-! ## Reading signs from their text -/

/-- The signs in the text of a pattern. -/
def signs : Pattern → List Sign
  | literal text => text.map .char
  | set negated items => [.set negated items]
  | any => [.any]
  | seq p q => p.signs ++ q.signs
  | alt p q => p.signs ++ .bar :: q.signs
  | group p => .opening :: (p.signs ++ [.closing])
  | repeated quantifier greedy p => .opening :: (p.signs ++ [.closing, .mark quantifier greedy])

theorem digitsValue_append (base : Nat) (value : Char → Nat) (digits : List Char) (c : Char) :
    Grammar.digitsValue base value (digits ++ [c]) = Grammar.digitsValue base value digits * base + value c := by
  simp [Grammar.digitsValue]

/-- A digit to base sixteen in upper case has its value, and is one. -/
theorem toUpper_digitChar : ∀ n < 16,
    Grammar.isHexDigit (Nat.digitChar n).toUpper = true ∧ Grammar.hexDigitValue (Nat.digitChar n).toUpper = n := by
  decide

/-- The digits of a number have the value of the number, if each digit has its own. -/
theorem digitsValue_map_toDigits {base : Nat} (hbase : 1 < base) {f : Char → Char} {isDigit : Char → Bool}
    {value : Char → Nat} (hdigit : ∀ n < base, isDigit (f (Nat.digitChar n)) = true ∧ value (f (Nat.digitChar n)) = n)
    (n : Nat) : (∀ c ∈ (Nat.toDigits base n).map f, isDigit c = true) ∧
      Grammar.digitsValue base value ((Nat.toDigits base n).map f) = n := by
  induction n using Nat.strongRecOn with
  | _ n ih =>
    rw [Nat.toDigits_eq_if hbase]
    split
    · next hlt =>
      obtain ⟨hd, hvalue⟩ := hdigit n hlt
      refine ⟨by simpa using hd, ?_⟩
      simpa [Grammar.digitsValue] using hvalue
    · next hle =>
      obtain ⟨hdigits, hvalue⟩ := ih (n / base) (Nat.div_lt_self (by omega) hbase)
      obtain ⟨hd, hlast⟩ := hdigit (n % base) (Nat.mod_lt _ (by omega))
      rw [List.map_append]
      refine ⟨?_, ?_⟩
      · intro c hc
        rcases List.mem_append.mp hc with hc | hc
        · exact hdigits c hc
        · obtain rfl : c = _ := by simpa using hc
          exact hd
      · rw [List.map_singleton, digitsValue_append, hvalue, hlast]
        exact Nat.div_add_mod' n base

/-- The digits of a number to base sixteen in upper case have the value of the number. -/
theorem digitsValue_toDigits (n : Nat) :
    (∀ c ∈ (Nat.toDigits 16 n).map Char.toUpper, Grammar.isHexDigit c = true) ∧
      Grammar.digitsValue 16 Grammar.hexDigitValue ((Nat.toDigits 16 n).map Char.toUpper) = n :=
  digitsValue_map_toDigits (by decide) toUpper_digitChar n

theorem escape_toList (c : Char) :
    (escape c).toList = '\\' :: 'x' :: '\x7b' :: ((Nat.toDigits 16 c.toNat).map Char.toUpper ++ ['\x7d']) := by
  simp [escape]

/-- The escape of a character is read as that character. -/
theorem escape?_escape (c : Char) (rest : List Char) : escape? ((escape c).toList ++ rest) = some (c, rest) := by
  obtain ⟨hdigits, hvalue⟩ := digitsValue_toDigits c.toNat
  have hstop : Grammar.isHexDigit '\x7d' = false := by decide
  rw [escape_toList]
  simp only [List.cons_append, List.append_assoc, List.nil_append, escape?]
  rw [List.dropWhile_append_of_pos hdigits, List.takeWhile_append_of_pos hdigits, List.dropWhile_cons_of_neg (by simp [hstop]),
    List.takeWhile_cons_of_neg (by simp [hstop]), List.append_nil]
  have hvalid : (Nat.toDigits 16 c.toNat).map Char.toUpper ≠ [] ∧
      (Grammar.digitsValue 16 Grammar.hexDigitValue ((Nat.toDigits 16 c.toNat).map Char.toUpper)).isValidChar := by
    rw [hvalue]
    exact ⟨by simp [Nat.toDigits_ne_nil], c.valid⟩
  simp only [charOfDigits?]
  rw [if_pos hvalid, hvalue, Char.ofNat_toNat]
  rfl

theorem items?_of_single {done : List SetItem} {s rest : List Char} {c : Char} (h : escape? s = some (c, rest))
    (hrest : rest.head? ≠ some '-') : items? done s = items? (.single c :: done) rest := by
  rw [items?.eq_def]
  split
  · simp [escape?] at h
  · split
    · next hnone =>
      rw [hnone] at h
      cases h
    · next hrange =>
      rw [hrange] at h
      cases h
      exact absurd rfl hrest
    · next hsingle =>
      rw [hsingle] at h
      cases h
      rfl

theorem items?_of_range {done : List SetItem} {s after rest : List Char} {low high : Char}
    (h : escape? s = some (low, '-' :: after)) (hafter : escape? after = some (high, rest)) (hle : low ≤ high) :
    items? done s = items? (.range low high :: done) rest := by
  rw [items?.eq_def]
  split
  · simp [escape?] at h
  · split
    · next hnone =>
      rw [hnone] at h
      cases h
    · next hrange =>
      rw [hrange] at h
      cases h
      split
      · next hnone =>
        rw [hnone] at hafter
        cases hafter
      · next hhigh =>
        rw [hhigh] at hafter
        cases hafter
        rw [if_pos hle]
    · next hnot hsingle =>
      rw [hsingle] at h
      cases h
      exact absurd rfl (hnot _)

/-- The text of items does not begin with a hyphen, which would belong to the item before. -/
theorem head?_items_ne (items : List SetItem) (rest : List Char) :
    ((items.map itemText).flatMap String.toList ++ ']' :: rest).head? ≠ some '-' := by
  cases items with
  | nil => simp
  | cons item items =>
    cases item with
    | single c => simp [itemText, escape_toList]
    | range low high => simp [itemText, escape_toList]

/-- The text of a set up to its closing bracket is read as its items. -/
theorem items?_text (items : List SetItem) (hordered : ∀ item ∈ items, item.Ordered) (rest : List Char) :
    ∀ done : List SetItem, done ++ items ≠ [] →
      items? done ((items.map itemText).flatMap String.toList ++ ']' :: rest) = some (done.reverse ++ items, rest) := by
  induction items with
  | nil =>
    intro done hne
    rw [List.append_nil] at hne
    simp [items?, hne]
  | cons item items ih =>
    intro done _
    obtain ⟨hitem, hitems⟩ := List.forall_mem_cons.mp hordered
    have hdone := ih hitems (item :: done) (List.cons_ne_nil _ _)
    rw [List.reverse_cons, List.append_assoc, List.singleton_append] at hdone
    rw [← hdone, List.map_cons, List.flatMap_cons, List.append_assoc]
    cases item with
    | single c => exact items?_of_single (escape?_escape c _) (head?_items_ne items rest)
    | range low high =>
      have hlow := escape?_escape low
        ('-' :: ((escape high).toList ++ ((items.map itemText).flatMap String.toList ++ ']' :: rest)))
      refine items?_of_range ?_ (escape?_escape high _) hitem
      rw [← hlow]
      simp [itemText]

/-! ### Signs -/

theorem signs?_of_sign (sign : Sign) {s rest : List Char} (h : sign? s = some (sign, rest)) :
    signs? s = (signs? rest).map (sign :: ·) := by
  cases s with
  | nil => cases h
  | cons c tail =>
    rw [signs?]
    split
    · next hnone =>
      rw [hnone] at h
      cases h
    · next hsome =>
      rw [hsome] at h
      cases h
      rfl

theorem sign?_escape (c : Char) (rest : List Char) : sign? ((escape c).toList ++ rest) = some (.char c, rest) := by
  have hescape := escape?_escape c rest
  have hbackslash (tail : List Char) :
      sign? ('\\' :: tail) = (escape? ('\\' :: tail)).map fun r => (.char r.1, r.2) := rfl
  rw [escape_toList] at hescape ⊢
  simp only [List.cons_append] at hescape ⊢
  rw [hbackslash, hescape]
  rfl

theorem sign?_set {items : List SetItem} (hitems : ValidItems items) (negated : Bool) (rest : List Char) :
    sign? ((set negated items).text.toList ++ rest) = some (.set negated items, rest) := by
  have hread := items?_text items hitems.2 rest [] (by simpa using hitems.1)
  cases negated with
  | true =>
    have htext : (set true items).text.toList ++ rest =
        '[' :: '^' :: ((items.map itemText).flatMap String.toList ++ ']' :: rest) := by
      simp [text, String.toList_join]
    rw [htext]
    simp only [sign?]
    rw [hread]
    rfl
  | false =>
    have htext : (set false items).text.toList ++ rest =
        '[' :: ((items.map itemText).flatMap String.toList ++ ']' :: rest) := by
      simp [text, String.toList_join]
    rw [htext]
    obtain ⟨item, items, rfl⟩ := List.exists_cons_of_ne_nil hitems.1
    rw [sign?]
    · rw [hread]
      rfl
    · intro tail htail
      cases item with
      | single c => simp [itemText, escape_toList] at htail
      | range low high => simp [itemText, escape_toList] at htail

/-- A repeat is lazy if a question mark follows its mark. Nothing else may begin with one. -/
theorem sign?_mark (quantifier : Quantifier) (greedy : Bool) {rest : List Char} (hrest : rest.head? ≠ some '?') :
    sign? ((quantifierText quantifier ++ if greedy then "" else "?").toList ++ rest) =
      some (.mark quantifier greedy, rest) := by
  have hgreedy : lazyMark quantifier rest = (.mark quantifier true, rest) := by
    unfold lazyMark
    split
    · exact absurd rfl hrest
    · rfl
  cases greedy with
  | true =>
    cases quantifier <;> simp only [quantifierText] <;> exact congrArg some hgreedy
  | false => cases quantifier <;> rfl

/-- The text of a pattern does not begin with a question mark, which would belong to the mark before. -/
theorem head?_text_ne (p : Pattern) {rest : List Char} (hrest : rest.head? ≠ some '?') :
    (p.text.toList ++ rest).head? ≠ some '?' := by
  induction p generalizing rest with
  | literal chars =>
    cases chars with
    | nil => simpa [text] using hrest
    | cons c chars => simp [text, escape_toList]
  | set negated items => cases negated <;> simp [text]
  | any => simp [text]
  | seq p q ihp ihq =>
    simp only [text, String.toList_append, List.append_assoc]
    exact ihp (ihq hrest)
  | alt p q ihp _ =>
    simp only [text, String.toList_append, List.append_assoc]
    exact ihp (by simp)
  | group p _ => simp [text]
  | repeated quantifier greedy p _ => simp [text]

/-- The text of a pattern is cut into the signs of the pattern. -/
theorem signs?_text {enclosed : Bool} {p : Pattern} (hp : p.Readable enclosed) {rest : List Char}
    (hrest : rest.head? ≠ some '?') : signs? (p.text.toList ++ rest) = (signs? rest).map (p.signs ++ ·) := by
  induction p generalizing enclosed rest with
  | literal chars =>
    induction chars with
    | nil => simp [text, signs]
    | cons c chars ih =>
      have htext : (literal (c :: chars)).text.toList ++ rest =
          (escape c).toList ++ ((literal chars).text.toList ++ rest) := by
        simp [text, String.toList_join]
      rw [htext, signs?_of_sign _ (sign?_escape c _), ih trivial, Option.map_map]
      rfl
  | set negated items =>
    rw [signs?_of_sign _ (sign?_set hp negated rest)]
    rfl
  | any =>
    have hany : sign? (any.text.toList ++ rest) = some (.any, rest) := rfl
    rw [signs?_of_sign _ hany]
    rfl
  | seq p q ihp ihq =>
    simp only [text, String.toList_append, List.append_assoc]
    rw [ihp hp.1 (head?_text_ne q hrest), ihq hp.2 hrest, Option.map_map]
    simp only [signs, List.append_assoc]
    rfl
  | alt p q ihp ihq =>
    have htext : (alt p q).text.toList ++ rest = p.text.toList ++ ('|' :: (q.text.toList ++ rest)) := by
      simp [text]
    rw [htext, ihp hp.2.1 (by simp), signs?_of_sign .bar rfl, ihq hp.2.2 hrest, Option.map_map,
      Option.map_map]
    simp only [signs, List.append_assoc]
    rfl
  | group p ih =>
    have htext : (group p).text.toList ++ rest = '(' :: '?' :: ':' :: (p.text.toList ++ (')' :: rest)) := by
      simp [text]
    rw [htext, signs?_of_sign .opening rfl, ih hp (by simp), signs?_of_sign .closing rfl,
      Option.map_map, Option.map_map]
    refine congrArg (fun f => Option.map f (signs? rest)) (funext fun more => ?_)
    simp [signs]
  | repeated quantifier greedy p ih =>
    have htext : (repeated quantifier greedy p).text.toList ++ rest = '(' :: '?' :: ':' :: (p.text.toList ++
        (')' :: ((quantifierText quantifier ++ if greedy then "" else "?").toList ++ rest))) := by
      simp [text]
    rw [htext, signs?_of_sign .opening rfl, ih hp (by simp), signs?_of_sign .closing rfl,
      signs?_of_sign _ (sign?_mark quantifier greedy hrest), Option.map_map, Option.map_map, Option.map_map]
    refine congrArg (fun f => Option.map f (signs? rest)) (funext fun more => ?_)
    simp [signs]

/-! ## Putting the signs of a pattern together -/

/-- Whether signs are put together, inside the innermost open parentheses, to items that match as `m` does. -/
def BuildsItems (signs : List Sign) (m : Matching) : Prop :=
  ∃ items : List Pattern,
    (∀ outer level rest, build outer level (signs ++ rest) =
      build outer { level with items := items.reverse ++ level.items } rest) ∧
    ∀ s, allRests items s = m s

/-- Whether signs are put together to further alternatives that match as `m` does. -/
def BuildsAlternatives (signs : List Sign) (m : Matching) : Prop :=
  ∃ ps : List Pattern, ps ≠ [] ∧
    (∀ outer alternatives rest, ∃ level : Level, level.finished = ps.reverse ++ alternatives ∧
      build outer ⟨alternatives, []⟩ (signs ++ rest) = build outer level rest) ∧
    ∀ s, (ps.flatMap fun p => p.rests s) = m s

/-- Items without a bar between them are one alternative. -/
theorem BuildsItems.alternatives {signs : List Sign} {m : Matching} (h : BuildsItems signs m) :
    BuildsAlternatives signs m := by
  obtain ⟨items, hbuild, hrests⟩ := h
  refine ⟨[concat items], List.cons_ne_nil _ _, ?_, ?_⟩
  · intro outer alternatives rest
    exact ⟨⟨alternatives, items.reverse ++ []⟩, by simp [Level.finished], hbuild outer ⟨alternatives, []⟩ rest⟩
  · intro s
    rw [List.flatMap_singleton, rests_concat, hrests]

/-- What stands in parentheses is one item. -/
theorem BuildsAlternatives.enclosed {signs : List Sign} {m : Matching} (h : BuildsAlternatives signs m) :
    ∃ p : Pattern, (∀ outer level rest, build outer level (.opening :: (signs ++ .closing :: rest)) =
      build outer (level.push p) rest) ∧ ∀ s, p.rests s = m s := by
  obtain ⟨ps, hne, hbuild, hrests⟩ := h
  refine ⟨group (choice ps), ?_, ?_⟩
  · intro outer level rest
    obtain ⟨inner, hfinished, hinner⟩ := hbuild (level :: outer) [] (.closing :: rest)
    have hclose : inner.close = choice ps := by
      rw [Level.close, hfinished, List.append_nil, List.reverse_reverse]
    rw [build, Level.empty, hinner, build, hclose]
  · intro s
    rw [rests, rests_choice hne, hrests]

/-- Signs that are put together to one item. -/
theorem buildsItems_singleton {signs : List Sign} {m : Matching} {p : Pattern}
    (hbuild : ∀ outer level rest, build outer level (signs ++ rest) = build outer (level.push p) rest)
    (hrests : ∀ s, p.rests s = m s) : BuildsItems signs m := by
  refine ⟨[p], hbuild, ?_⟩
  intro s
  rw [← hrests, ← rests_concat, concat]

theorem buildsItems_literal (text : List Char) : BuildsItems (text.map .char) (textRests text) := by
  refine ⟨text.map fun c => literal [c], fun outer level rest => ?_, allRests_map_literal text⟩
  induction text generalizing level with
  | nil => rfl
  | cons c text ih =>
    rw [List.map_cons, List.cons_append, build, ih]
    simp [Level.push]

/-- The signs of a pattern are put together to items, and to alternatives where it may be a choice. -/
theorem builds_signs (p : Pattern) :
    (p.Readable false → BuildsItems p.signs p.rests) ∧ (p.Readable true → BuildsAlternatives p.signs p.rests) := by
  induction p with
  | literal text =>
    have hitems := buildsItems_literal text
    exact ⟨fun _ => hitems, fun _ => hitems.alternatives⟩
  | set negated items =>
    have hitems : BuildsItems (set negated items).signs (set negated items).rests :=
      buildsItems_singleton (fun outer level rest => rfl) fun s => rfl
    exact ⟨fun _ => hitems, fun _ => hitems.alternatives⟩
  | any =>
    have hitems : BuildsItems any.signs any.rests := buildsItems_singleton (fun outer level rest => rfl) fun s => rfl
    exact ⟨fun _ => hitems, fun _ => hitems.alternatives⟩
  | seq p q ihp ihq =>
    have hitems (h : p.Readable false ∧ q.Readable false) : BuildsItems (seq p q).signs (seq p q).rests := by
      obtain ⟨ps, hps, hprests⟩ := ihp.1 h.1
      obtain ⟨qs, hqs, hqrests⟩ := ihq.1 h.2
      refine ⟨ps ++ qs, ?_, ?_⟩
      · intro outer level rest
        rw [signs, List.append_assoc, hps, hqs]
        simp
      · intro s
        rw [allRests_append, hprests, funext hqrests]
        rfl
    exact ⟨hitems, fun h => (hitems h).alternatives⟩
  | alt p q ihp ihq =>
    refine ⟨fun h => absurd h.1 (by decide), ?_⟩
    intro h
    obtain ⟨items, hitems, hprests⟩ := ihp.1 h.2.1
    obtain ⟨qs, hne, hqs, hqrests⟩ := ihq.2 h.2.2
    refine ⟨concat items :: qs, List.cons_ne_nil _ _, ?_, ?_⟩
    · intro outer alternatives rest
      obtain ⟨level, hfinished, hlevel⟩ := hqs outer (concat items :: alternatives) rest
      refine ⟨level, by rw [hfinished]; simp, ?_⟩
      rw [signs, List.append_assoc, hitems, List.cons_append, build, ← hlevel]
      simp [Level.finished]
    · intro s
      rw [List.flatMap_cons, rests_concat, hprests, hqrests]
      rfl
  | group p ih =>
    have hitems (h : p.Readable true) : BuildsItems (group p).signs (group p).rests := by
      obtain ⟨q, hbuild, hrests⟩ := (ih.2 h).enclosed
      refine buildsItems_singleton (fun outer level rest => ?_) hrests
      rw [signs, List.cons_append, List.append_assoc]
      exact hbuild outer level rest
    exact ⟨hitems, fun h => (hitems h).alternatives⟩
  | repeated quantifier greedy p ih =>
    have hitems (h : p.Readable true) :
        BuildsItems (repeated quantifier greedy p).signs (repeated quantifier greedy p).rests := by
      obtain ⟨q, hbuild, hrests⟩ := (ih.2 h).enclosed
      refine buildsItems_singleton (p := repeated quantifier greedy q) (fun outer level rest => ?_) fun s => ?_
      · rw [signs, List.cons_append, List.append_assoc]
        exact hbuild outer level (.mark quantifier greedy :: rest)
      · rw [rests, rests, funext hrests]
    exact ⟨hitems, fun h => (hitems h).alternatives⟩

/-- The text of a pattern can be read, and what is read matches the same in the same order. -/
theorem exists_read_text {p : Pattern} (hp : p.Readable true) : ∃ e, read p.text = some e ∧ ∀ s, e.rests s = p.rests s := by
  obtain ⟨ps, hne, hbuild, hrests⟩ := (builds_signs p).2 hp
  have hend : ([] : List Char).head? ≠ some '?' := by simp
  have hsigns := signs?_text hp hend
  rw [List.append_nil] at hsigns
  obtain ⟨level, hfinished, hlevel⟩ := hbuild [] [] []
  refine ⟨choice ps, ?_, fun s => by rw [rests_choice hne, hrests]⟩
  rw [read, hsigns, signs?]
  simp only [Option.map_some, Option.bind_some, Level.empty]
  rw [hlevel, build, Level.close, hfinished]
  simp

end Pattern

end Lexeme
