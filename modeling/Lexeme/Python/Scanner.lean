import Lexeme.Python.Lengths

/-!
# Scanning a Python text by bytes

The scanner holds its place in a text as a number of bytes. A step asks for the length of the next token, cuts that many
bytes off and emits them, or it looks at the beginning of a line. The tokens come out as those of the lexer that splits the
text between characters.

Every cut is checked: a step is `none` if the scanner would cut inside a character or behind the end of the text, and also
if it would emit a token of no bytes and stay where it is. So the bytes that are left, and the beginning of a line, are
enough to tell that the steps come to an end.
-/

namespace Lexeme.Python

open Text (byteCount firstBytes? afterBytes?)

/-- Where a scanner is, and what it has found. The tokens stand last first, the indentations innermost first; the outermost
is always zero. `pending` says whether the current line has shown a token. -/
structure Scanner where
  position : Position
  tokens : List Token
  indents : List Nat
  brackets : Nat
  lineStart : Bool
  pending : Bool
deriving DecidableEq, Repr

namespace Scanner

/-- At the beginning of a text. -/
def initial : Scanner := ⟨.start, [], [0], 0, true, false⟩

/-- The text that is left. -/
def rest? (source : List Char) (s : Scanner) : Option (List Char) := afterBytes? s.position.offset source

/-! ## Tokens -/

/-- Goes over a token of the given text. -/
def push (s : Scanner) (kind : Kind) (text : List Char) : Scanner :=
  { s with
    tokens := ⟨String.ofList text, kind.category, kind.channel, s.position⟩ :: s.tokens
    position := s.position.advanceBy text }

/-- Emits a token of the given text. One that is seen, and is not the end of a line, is a token of the current line. -/
def emitted (s : Scanner) (kind : Kind) (text : List Char) : Scanner :=
  { s.push kind text with pending := s.pending || (kind.channel = defaultChannel && kind ≠ .newline) }

/-- Emits the next `length` bytes as one token. There is no token of no bytes. -/
def emit? (source : List Char) (s : Scanner) (length : Nat) (kind : Kind) : Option Scanner := do
  let text ← firstBytes? length (← s.rest? source)
  if length = 0 then none else return s.emitted kind text

/-- Emits white space, if there is any. -/
def skip? (source : List Char) (s : Scanner) (length : Nat) : Option Scanner :=
  if 0 < length then s.emit? source length .skip else return s

/-! ## Steps -/

/-- What a step comes to. -/
inductive Turn where
  | ended
  | moved (s : Scanner)
  | failed (e : LexingError)
deriving DecidableEq, Repr

/-- A step over the next `length` bytes, which are one token. -/
def token? (source : List Char) (s : Scanner) (length : Nat) (kind : Kind) : Option Turn :=
  (s.emit? source length kind).map .moved

/-- At a line break. -/
def lineEnd? (source : List Char) (s : Scanner) : Option Turn := do
  let length := lineBreakLength (← s.rest? source)
  if s.brackets = 0 ∧ s.pending then
    let s ← s.emit? source length .newline
    return .moved { s with lineStart := true, pending := false }
  else
    let s ← s.emit? source length .skip
    return .moved { s with lineStart := s.brackets = 0 }

/-- Closes the blocks of `indents` that are wider than `width`. -/
def closeBlocks (width : Nat) (s : Scanner) : List Nat → Scanner
  | top :: indents =>
    if width < top then closeBlocks width (s.push .dedent []) indents else { s with indents := top :: indents }
  | [] => { s with indents := [] }

/-- At the beginning of a line. A line without tokens leaves the blocks as they are. -/
def indentation? (source : List Char) (s : Scanner) : Option Turn := do
  let rest ← s.rest? source
  let length := whitespaceLength rest
  let width := indentWidth (← firstBytes? length rest)
  let blank := (← afterBytes? length rest).head?.all fun c => isLineBreak c || c = '#'
  let current := s.indents.head?.getD 0
  if blank ∨ width = current then return .moved (← s.skip? source length)
  else if current < width then token? source { s with indents := width :: s.indents } length .indent
  else
    let s ← s.skip? source length
    let s := closeBlocks width s s.indents
    if s.indents.head? = some width then return .moved s else return .failed (.inconsistentDedent s.position)

/-- Keeps count of the open brackets. A closing bracket without an opening one counts for nothing. -/
def countBracket (s : Scanner) (operator : List Char) : Scanner :=
  if operator = ['('] ∨ operator = ['['] ∨ operator = ['\x7b'] then { s with brackets := s.brackets + 1 }
  else if operator = [')'] ∨ operator = [']'] ∨ operator = ['\x7d'] then { s with brackets := s.brackets - 1 }
  else s

/-- At a token of a line; `rest` is what is left of the text and begins with `c`. -/
def content? (source : List Char) (s : Scanner) (c : Char) (rest : List Char) : Option Turn := do
  match ← stringPrefixLength? rest with
  | some mark =>
    match ← stringLength? rest mark with
    | some length => s.token? source length .string
    | none => return .failed (.unterminatedString s.position)
  | none =>
    if beginsNumber rest then s.token? source (← numberLength? rest) .number
    else if isWordStart c then
      let length := spanLength isWordChar rest
      s.token? source length (wordKind (← firstBytes? length rest))
    else
      match operator? rest with
      | some (operator, index) => (s.countBracket operator).token? source (byteCount operator) (.operator index)
      | none => return .failed (.noViableAlternative s.position (String.singleton c))

/-- One step. -/
def step? (source : List Char) (s : Scanner) : Option Turn := do
  match ← s.rest? source with
  | [] => return .ended
  | c :: rest =>
    if s.lineStart then indentation? source { s with lineStart := false }
    else if isLineBreak c then s.lineEnd? source
    else if isBlank c then s.token? source (whitespaceLength (c :: rest)) .skip
    else if c = '\\' ∧ rest.head?.any isLineBreak then
      s.token? source (1 + lineBreakLength (← afterBytes? 1 (c :: rest))) .skip
    else if c = '#' then s.token? source (spanLength (!isLineBreak ·) (c :: rest)) .comment
    else s.content? source c (c :: rest)

/-! ## A step that moves goes on -/

variable {source : List Char} {s after : Scanner} {length : Nat} {kind : Kind}

/-- A token is emitted exactly if it is cut off at the place of the scanner and not empty. -/
theorem emit?_eq_some_iff : s.emit? source length kind = some after ↔
    ∃ before text left, before ++ (text ++ left) = source ∧ byteCount before = s.position.offset ∧ byteCount text = length ∧
      length ≠ 0 ∧ after = s.emitted kind text := by
  simp only [emit?, rest?, Option.bind_eq_bind, Option.bind_eq_some_iff, Text.afterBytes?_eq_some_iff,
    Text.firstBytes?_eq_some_iff]
  constructor
  · rintro ⟨rest, ⟨before, hbefore, hplace⟩, text, ⟨left, rfl, hlength⟩, h⟩
    split at h
    · cases h
    · next hpositive => exact ⟨before, text, left, hbefore, hplace, hlength, hpositive, (Option.some.inj h).symm⟩
  · rintro ⟨before, text, left, hbefore, hplace, hlength, hpositive, rfl⟩
    exact ⟨_, ⟨before, hbefore, hplace⟩, text, ⟨left, rfl, hlength⟩, if_neg hpositive⟩

theorem rest?_le {rest : List Char} (h : s.rest? source = some rest) : s.position.offset ≤ byteCount source := by
  obtain ⟨before, hbefore, hplace⟩ := Text.afterBytes?_eq_some_iff.mp h
  exact Text.IsBoundary.le ⟨before, rest, hbefore, hplace⟩

/-- Whether a scanner has gone over some of a text. -/
def GoesOver (source : List Char) (s after : Scanner) : Prop :=
  s.position.offset < after.position.offset ∧ after.position.offset ≤ byteCount source

theorem emit?_goesOver (h : s.emit? source length kind = some after) : GoesOver source s after := by
  obtain ⟨before, text, left, rfl, hplace, hlength, hpositive, rfl⟩ := emit?_eq_some_iff.mp h
  have hoffset : (s.emitted kind text).position.offset = s.position.offset + byteCount text := Position.offset_advanceBy _ _
  unfold GoesOver
  simp only [Text.byteCount_append]
  omega

theorem token?_goesOver (h : s.token? source length kind = some (.moved after)) : GoesOver source s after := by
  obtain ⟨shown, hshown, h⟩ := Option.map_eq_some_iff.mp h
  cases h
  exact emit?_goesOver hshown

theorem lineEnd?_goesOver (h : s.lineEnd? source = some (.moved after)) : GoesOver source s after := by
  obtain ⟨rest, -, h⟩ := Option.bind_eq_some_iff.mp h
  dsimp only at h
  split at h
  · obtain ⟨shown, hshown, h⟩ := Option.bind_eq_some_iff.mp h
    cases h
    have hover : GoesOver source s shown := emit?_goesOver hshown
    exact hover
  · obtain ⟨shown, hshown, h⟩ := Option.bind_eq_some_iff.mp h
    cases h
    have hover : GoesOver source s shown := emit?_goesOver hshown
    exact hover

theorem position_countBracket (s : Scanner) (operator : List Char) : (s.countBracket operator).position = s.position := by
  unfold countBracket
  split
  · rfl
  · split <;> rfl

theorem content?_goesOver {c : Char} {rest : List Char} (h : s.content? source c rest = some (.moved after)) :
    GoesOver source s after := by
  obtain ⟨mark, -, h⟩ := Option.bind_eq_some_iff.mp h
  cases mark with
  | some mark =>
    obtain ⟨found, -, h⟩ := Option.bind_eq_some_iff.mp h
    cases found with
    | none => cases h
    | some length => exact token?_goesOver h
  | none =>
    dsimp only at h
    split at h
    · obtain ⟨length, -, h⟩ := Option.bind_eq_some_iff.mp h
      exact token?_goesOver h
    · split at h
      · obtain ⟨word, -, h⟩ := Option.bind_eq_some_iff.mp h
        exact token?_goesOver h
      · split at h
        · next operator index _ =>
          have hover := token?_goesOver h
          unfold GoesOver at hover ⊢
          rwa [position_countBracket] at hover
        · cases h

/-! At the beginning of a line a scanner may stay at its place, but it is inside the line afterwards. -/

/-- Whether a scanner is at the same place or further on in a text, and as far from the beginning of a line. -/
structure Keeps (source : List Char) (s after : Scanner) : Prop where
  offset_le : s.position.offset ≤ after.position.offset
  le_byteCount : after.position.offset ≤ byteCount source
  lineStart_eq : after.lineStart = s.lineStart

theorem emit?_keeps (h : s.emit? source length kind = some after) : Keeps source s after := by
  obtain ⟨hlt, hle⟩ := emit?_goesOver h
  obtain ⟨_, _, _, -, -, -, -, rfl⟩ := emit?_eq_some_iff.mp h
  exact ⟨Nat.le_of_lt hlt, hle, rfl⟩

theorem skip?_keeps (h : s.skip? source length = some after) (hs : s.position.offset ≤ byteCount source) :
    Keeps source s after := by
  unfold skip? at h
  split at h
  · exact emit?_keeps h
  · cases h
    exact ⟨Nat.le_refl _, hs, rfl⟩

theorem closeBlocks_place (width : Nat) (s : Scanner) (indents : List Nat) :
    (closeBlocks width s indents).position = s.position ∧ (closeBlocks width s indents).lineStart = s.lineStart := by
  fun_induction closeBlocks width s indents with
  | case1 s top indents _ ih => exact ih
  | case2 => exact ⟨rfl, rfl⟩
  | case3 => exact ⟨rfl, rfl⟩

theorem indentation?_keeps (h : s.indentation? source = some (.moved after)) : Keeps source s after := by
  obtain ⟨rest, hrest, h⟩ := Option.bind_eq_some_iff.mp h
  obtain ⟨space, -, h⟩ := Option.bind_eq_some_iff.mp h
  obtain ⟨left, -, h⟩ := Option.bind_eq_some_iff.mp h
  have hle := rest?_le hrest
  dsimp only at h
  split at h
  · obtain ⟨shown, hshown, h⟩ := Option.bind_eq_some_iff.mp h
    cases h
    exact skip?_keeps hshown hle
  · split at h
    · obtain ⟨shown, hshown, h⟩ := Option.map_eq_some_iff.mp h
      cases h
      have hkeeps := emit?_keeps hshown
      exact ⟨hkeeps.offset_le, hkeeps.le_byteCount, hkeeps.lineStart_eq⟩
    · obtain ⟨shown, hshown, h⟩ := Option.bind_eq_some_iff.mp h
      obtain ⟨hposition, hlineStart⟩ := closeBlocks_place (indentWidth space) shown shown.indents
      split at h
      · cases h
        obtain ⟨hoffset, hbyteCount, hline⟩ := skip?_keeps hshown hle
        exact ⟨by rwa [hposition], by rwa [hposition], by rw [hlineStart, hline]⟩
      · cases h

/-- Whether a scanner has gone on in a text: over some of it, or from the beginning of a line into the line. -/
structure Advances (source : List Char) (s after : Scanner) : Prop where
  le_byteCount : after.position.offset ≤ byteCount source
  goes : s.position.offset < after.position.offset ∨
    s.position.offset = after.position.offset ∧ s.lineStart = true ∧ after.lineStart = false

theorem Keeps.advances (h : Keeps source { s with lineStart := false } after) (hline : s.lineStart = true) :
    Advances source s after := by
  obtain ⟨hoffset, hbyteCount, hlineStart⟩ := h
  refine ⟨hbyteCount, ?_⟩
  rcases Nat.eq_or_lt_of_le hoffset with heq | hlt
  · exact .inr ⟨heq, hline, hlineStart⟩
  · exact .inl hlt

/-- A step that moves goes on. -/
theorem step?_advances (h : s.step? source = some (.moved after)) : Advances source s after := by
  obtain ⟨rest, hrest, h⟩ := Option.bind_eq_some_iff.mp h
  cases rest with
  | nil => cases h
  | cons c rest =>
    dsimp only at h
    split at h
    · next hline => exact (indentation?_keeps h).advances hline
    · have hover : GoesOver source s after := by
        split at h
        · exact lineEnd?_goesOver h
        · split at h
          · exact token?_goesOver h
          · split at h
            · obtain ⟨next, -, h⟩ := Option.bind_eq_some_iff.mp h
              exact token?_goesOver h
            · split at h
              · exact token?_goesOver h
              · exact content?_goesOver h
      exact ⟨hover.2, .inl hover.1⟩

/-- The bytes that are left, each counted twice, and the beginning of a line. -/
def remaining (source : List Char) (s : Scanner) : Nat :=
  2 * (byteCount source - s.position.offset) + s.lineStart.toNat

theorem Advances.remaining_lt (h : Advances source s after) : after.remaining source < s.remaining source := by
  obtain ⟨hle, hlt | ⟨heq, hline, hafter⟩⟩ := h
  · have := Bool.toNat_lt after.lineStart
    unfold remaining
    omega
  · unfold remaining
    rw [heq, hline, hafter]
    simp

/-! ## The run -/

/-- The tokens at the end of a text: the end of a line that is not ended, and the ends of the blocks that are still open. -/
def finish (s : Scanner) : List Token :=
  let s := if s.pending then s.push .newline [] else s
  (close s s.indents).tokens.reverse
where
  /-- Closes all blocks but the outermost. -/
  close (s : Scanner) : List Nat → Scanner
    | [] => s
    | [_] => s
    | _ :: outer :: indents => close (s.push .dedent []) (outer :: indents)

/-- Scans a text up to its end, or to where that fails. -/
def run? (source : List Char) (s : Scanner) : Option (Except LexingError (List Token)) :=
  match _ : s.step? source with
  | none => none
  | some .ended => some (.ok s.finish)
  | some (.failed e) => some (.error e)
  | some (.moved after) => run? source after
termination_by s.remaining source
decreasing_by exact (step?_advances ‹_›).remaining_lt

end Scanner

end Lexeme.Python
