import Lexeme.Segment

/-!
# The tokens of a cut

`Segment.tokens` collects tokens backwards and carries a position along. Here the same tokens are told from the
segments alone: a segment that stands after the text `before` gives at most one token (`Segment.token?`), and the tokens
of consecutive segments are those of the segments, each at the position after all text before it (`Segment.emitted`).

A token of a cut can therefore be traced back: `exists_segment_of_emitted` finds the segment that it comes from.
-/

namespace Lexeme

variable {κ ε : Type}

namespace Segment

@[simp] theorem joined_nil : joined ([] : List (Segment κ)) = [] := rfl

@[simp] theorem joined_cons (s : Segment κ) (segments : List (Segment κ)) :
    joined (s :: segments) = s.text ++ joined segments := rfl

@[simp] theorem joined_append (segments more : List (Segment κ)) :
    joined (segments ++ more) = joined segments ++ joined more := by
  simp [joined]

/-- The token of a segment that stands after the text `before`, if its kind has a place. -/
def token? (place : κ → Option (Nat × Nat)) (before : List Char) (s : Segment κ) : Option Token :=
  (place s.kind).map fun p => ⟨String.ofList s.text, p.1, p.2, Position.start.advanceBy before⟩

/-- The tokens of consecutive segments after the text `before`. -/
def emitted (place : κ → Option (Nat × Nat)) (before : List Char) : List (Segment κ) → List Token
  | [] => []
  | s :: rest => (token? place before s).toList ++ emitted place (before ++ s.text) rest

variable {place : κ → Option (Nat × Nat)}

theorem emitted_append (before : List Char) (segments more : List (Segment κ)) :
    emitted place before (segments ++ more) = emitted place before segments ++ emitted place (before ++ joined segments) more := by
  induction segments generalizing before with
  | nil => simp [emitted]
  | cons s rest ih => simp [emitted, ih]

theorem tokensFrom_eq_emitted (before : List Char) (done : List Token) (segments : List (Segment κ)) :
    tokensFrom place (Position.start.advanceBy before) done segments =
      done.reverse ++ emitted place before segments := by
  induction segments generalizing before done with
  | nil => simp [tokensFrom, emitted]
  | cons s rest ih =>
    unfold tokensFrom emitted token?
    rw [← Position.advanceBy_append]
    cases place s.kind with
    | none => simpa using ih (before ++ s.text) done
    | some p => simpa using ih (before ++ s.text) (_ :: done)

/-- The tokens of a whole text are those that its segments emit. -/
theorem tokens_eq_emitted (segments : List (Segment κ)) : tokens place segments = emitted place [] segments :=
  tokensFrom_eq_emitted [] [] segments

/-- The token of a segment has its text, the place of its kind, and the position after all text before it. -/
theorem token?_eq_some_iff {before : List Char} {s : Segment κ} {t : Token} :
    token? place before s = some t ↔
      t.text = String.ofList s.text ∧ place s.kind = some (t.category, t.channel) ∧
        t.position = Position.start.advanceBy before := by
  obtain ⟨text, category, channel, position⟩ := t
  unfold token?
  cases place s.kind with
  | none => simp
  | some p =>
    obtain ⟨found, other⟩ := p
    simp only [Option.map_some, Option.some.injEq, Token.mk.injEq, Prod.mk.injEq]
    constructor
    · rintro ⟨rfl, rfl, rfl, rfl⟩
      exact ⟨rfl, ⟨rfl, rfl⟩, rfl⟩
    · rintro ⟨rfl, ⟨rfl, rfl⟩, rfl⟩
      exact ⟨rfl, rfl, rfl, rfl⟩

/-- A token of consecutive segments is the token of one of them; the tokens before it are those of the segments before
that one, and the tokens after it those of the segments after. -/
theorem exists_segment_of_emitted {before : List Char} {segments : List (Segment κ)} {ts us : List Token} {t : Token}
    (h : emitted place before segments = ts ++ t :: us) :
    ∃ first s last, segments = first ++ s :: last ∧ token? place (before ++ joined first) s = some t ∧
      emitted place before first = ts ∧ emitted place (before ++ joined first ++ s.text) last = us := by
  induction segments generalizing before ts with
  | nil => simp [emitted] at h
  | cons s rest ih =>
    rw [emitted] at h
    -- the token is that of `s`, or `s` only adds to the tokens before it
    cases htoken : token? place before s with
    | none =>
      obtain ⟨first, u, last, rfl, hu, hfirst, hlast⟩ := ih (by simpa [htoken] using h)
      exact ⟨s :: first, u, last, rfl, by simpa using hu, by simpa [emitted, htoken] using hfirst,
        by simpa using hlast⟩
    | some v =>
      rw [htoken, Option.toList_some, List.singleton_append] at h
      cases ts with
      | nil =>
        obtain ⟨rfl, hus⟩ := List.cons.inj h
        exact ⟨[], s, rest, rfl, by simpa using htoken, rfl, by simpa using hus⟩
      | cons w ts =>
        obtain ⟨rfl, hts⟩ := List.cons.inj h
        obtain ⟨first, u, last, rfl, hu, hfirst, hlast⟩ := ih hts
        exact ⟨s :: first, u, last, rfl, by simpa using hu, by simp [emitted, htoken, hfirst], by simpa using hlast⟩

/-- What the tokens say, apart from their positions, is what the kinds and the texts of the segments say. -/
theorem map_emitted (before : List Char) (segments : List (Segment κ)) :
    (emitted place before segments).map (fun t => (t.text, t.category, t.channel)) =
      segments.filterMap fun s => (place s.kind).map fun p => (String.ofList s.text, p.1, p.2) := by
  induction segments generalizing before with
  | nil => rfl
  | cons s rest ih =>
    cases h : place s.kind with
    | none => simp [emitted, token?, h, ih]
    | some p => simp [emitted, token?, h, ih]

/-- When no segment is dropped, the tokens hold the whole text. -/
theorem join_emitted (hplace : ∀ kind, (place kind).isSome) (before : List Char) (segments : List (Segment κ)) :
    String.join ((emitted place before segments).map Token.text) = String.ofList (joined segments) := by
  induction segments generalizing before with
  | nil => rfl
  | cons s rest ih =>
    obtain ⟨p, hp⟩ := Option.isSome_iff_exists.mp (hplace s.kind)
    simp [emitted, token?, hp, ih, String.ofList_append]

end Segment

namespace Cut

variable {cut : Cut κ ε} {place : κ → Option (Nat × Nat)} {error : Position → ε → LexingError}

/-- The place of a failure is the end of the text of the segments before it. -/
theorem position_eq (cut : Cut κ ε) : cut.position = Position.start.advanceBy (Segment.joined cut.segments) := by
  have hfold (p : Position) (segments : List (Segment κ)) :
      segments.foldl (fun p s => p.advanceBy s.text) p = p.advanceBy (Segment.joined segments) := by
    induction segments generalizing p with
    | nil => rfl
    | cons s rest ih => rw [List.foldl_cons, ih, Segment.joined_cons, Position.advanceBy_append]
  exact hfold _ _

theorem tokens_eq_ok_iff {ts : List Token} :
    cut.tokens place error = .ok ts ↔ cut.failure = none ∧ ts = Segment.emitted place [] cut.segments := by
  unfold Cut.tokens
  rw [Segment.tokens_eq_emitted]
  cases cut.failure with
  | none => simp [eq_comm]
  | some e => simp

theorem tokens_eq_error_iff {e : LexingError} :
    cut.tokens place error = .error e ↔
      ∃ failure, cut.failure = some failure ∧
        e = error (Position.start.advanceBy (Segment.joined cut.segments)) failure := by
  unfold Cut.tokens
  rw [position_eq]
  cases cut.failure with
  | none => simp
  | some failure => simp [eq_comm]

end Cut

end Lexeme
