import Lexeme.Proofs.Grammar.Unplaced

/-!
# What stands between symbols

White space and comments may be put after any symbol of a source, and before the first one (`trivia_between_symbols`). What is
skipped before a symbol is just that (`skipTrivia_append`, `exists_isTrivia_of_skipTrivia`). A reader of symbols takes what it
reads whatever follows (`StopsItself`), and a symbol that has no end of its own, at least before what could not belong to it
(`symbol_before`). So a run over symbols (`Scans`) goes the same way if what follows the last of them is put off by white
space and comments (`Scans.replace`), and from there on the symbols are the same again, up to their positions.
-/

namespace Lexeme.Grammar

/-! ## White space and comments -/

/-- Whether a text consists of white space, of comments to the ends of lines, and of comments between slashes and stars. -/
inductive IsTrivia : List Char → Prop
  | nil : IsTrivia []
  | blank {c : Char} {t : List Char} (hc : Text.isBlank c = true) (h : IsTrivia t) : IsTrivia (c :: t)
  | line {body t : List Char} (hbody : '\n' ∉ body) (h : IsTrivia t) : IsTrivia ('/' :: '/' :: (body ++ '\n' :: t))
  | block {body t : List Char} (hbody : ¬['*', '/'] <:+: body) (h : IsTrivia t) :
      IsTrivia ('/' :: '*' :: (body ++ '*' :: '/' :: t))

theorem IsTrivia.of_break {t : List Char} (h : IsTrivia ('\n' :: t)) : IsTrivia t := by
  cases h with
  | blank _ h => exact h

/-- A comment ends where a star and a slash are first found. -/
theorem skipComment?_append {body : Located} (h : ¬['*', '/'] <:+: body.map Prod.fst) (p q : Position) (s : Located) :
    skipComment? (body ++ ('*', p) :: ('/', q) :: s) = some s := by
  induction body with
  | nil => rfl
  | cons x body ih =>
    obtain ⟨c, r⟩ := x
    rw [List.map_cons] at h
    have hbody : ¬['*', '/'] <:+: body.map Prod.fst := fun hwithin => h (hwithin.trans (List.suffix_cons _ _).isInfix)
    rw [← ih hbody]
    refine skipComment?.eq_2 _ _ fun p' q' rest hstar hslash => ?_
    -- the slash would belong to the body
    obtain ⟨rfl, -⟩ := Prod.mk.inj hstar
    cases body with
    | nil => cases hslash
    | cons y body =>
      obtain ⟨rfl, -⟩ := List.cons.inj hslash
      exact h ⟨[], body.map Prod.fst, rfl⟩

theorem exists_body_of_skipComment? {s rest : Located} (h : skipComment? s = some rest) :
    ∃ body p q, s = body ++ ('*', p) :: ('/', q) :: rest ∧ ¬['*', '/'] <:+: body.map Prod.fst := by
  fun_induction skipComment? s with
  | case1 p q s =>
    obtain rfl := Option.some.inj h
    exact ⟨[], p, q, rfl, by simp⟩
  | case2 x s hs ih =>
    obtain ⟨body, p, q, rfl, hbody⟩ := ih h
    refine ⟨x :: body, p, q, rfl, fun hwithin => ?_⟩
    rcases List.infix_cons_iff.mp hwithin with hopen | hwithin
    · obtain ⟨hstar, hslash⟩ := List.cons_prefix_cons.mp hopen
      obtain ⟨c, r⟩ := x
      obtain rfl : '*' = c := hstar
      cases body with
      | nil => simp at hslash
      | cons y body =>
        obtain ⟨d, t⟩ := y
        obtain rfl : '/' = d := (List.cons_prefix_cons.mp hslash).1
        exact hs _ _ _ rfl rfl
    · exact hbody hwithin
  | case3 => cases h

/-- White space and comments are skipped, whatever follows. -/
theorem skipTrivia_append {gap : Located} (h : IsTrivia (gap.map Prod.fst)) (s : Located) :
    skipTrivia (gap ++ s) = skipTrivia s := by
  generalize htext : gap.map Prod.fst = text at h
  induction h generalizing gap with
  | nil =>
    rw [List.map_eq_nil_iff.mp htext]
    rfl
  | blank hc h ih =>
    obtain ⟨p, gap, rfl, hgap⟩ := exists_cons_of_map htext
    have hskip := @skipTrivia_gap [(_, p)] (List.forall_mem_singleton.mpr hc) (gap ++ s)
    exact hskip.trans (ih hgap)
  | line hbody h ih =>
    obtain ⟨p, u, rfl, hu⟩ := exists_cons_of_map htext
    obtain ⟨q, v, rfl, hv⟩ := exists_cons_of_map hu
    obtain ⟨body, w, rfl, rfl, hw⟩ := List.map_eq_append_iff.mp hv
    obtain ⟨r, gap, rfl, hgap⟩ := exists_cons_of_map hw
    have hline : (body ++ ('\n', r) :: gap ++ s).dropWhile (fun c => decide (c.1 ≠ '\n')) = ('\n', r) :: (gap ++ s) := by
      rw [List.append_assoc]
      refine dropWhile_append_of_stop (fun x hx => decide_eq_true fun hbreak => hbody ?_) (by simp)
      exact hbreak ▸ List.mem_map_of_mem hx
    have hskip := @skipTrivia_gap [('\n', r)] (List.forall_mem_singleton.mpr rfl) (gap ++ s)
    rw [List.cons_append, List.cons_append, skipTrivia, hline]
    exact hskip.trans (ih hgap)
  | block hbody h ih =>
    obtain ⟨p, u, rfl, hu⟩ := exists_cons_of_map htext
    obtain ⟨q, v, rfl, hv⟩ := exists_cons_of_map hu
    obtain ⟨body, w, rfl, rfl, hw⟩ := List.map_eq_append_iff.mp hv
    obtain ⟨r, x, rfl, hx⟩ := exists_cons_of_map hw
    obtain ⟨r', gap, rfl, hgap⟩ := exists_cons_of_map hx
    rw [List.cons_append, List.cons_append, skipTrivia_block, List.append_assoc, List.cons_append, List.cons_append,
      skipComment?_append hbody]
    exact ih hgap

/-- What is skipped before a symbol are white space and comments. -/
theorem exists_isTrivia_of_skipTrivia {s rest : Located} {c : Char} {p : Position}
    (h : skipTrivia s = .ok ((c, p) :: rest)) :
    Text.isBlank c = false ∧ ∃ gap, s = gap ++ (c, p) :: rest ∧ IsTrivia (gap.map Prod.fst) := by
  fun_induction skipTrivia s with
  | case1 => cases h
  | case2 q r s ih =>
    obtain ⟨hblank, gap, hgap, htrivia⟩ := ih h
    have hs := List.takeWhile_append_dropWhile (p := fun c : Char × Position => decide (c.1 ≠ '\n')) (l := s)
    have hhead := List.head?_dropWhile_not (fun c : Char × Position => decide (c.1 ≠ '\n')) s
    rw [hgap] at hs hhead
    cases gap with
    | nil =>
      -- the symbol would begin with the line break that ends the comment
      obtain rfl : c = '\n' := by simpa using hhead
      cases hblank
    | cons x gap =>
      obtain ⟨d, t⟩ := x
      obtain rfl : d = '\n' := by simpa using hhead
      have hbody : '\n' ∉ (s.takeWhile fun c => decide (c.1 ≠ '\n')).map Prod.fst := by
        intro hmem
        obtain ⟨x, hx, hbreak⟩ := List.mem_map.mp hmem
        have hother := List.mem_takeWhile_imp hx
        exact (by simpa using hother : x.1 ≠ '\n') hbreak
      refine ⟨hblank, ('/', q) :: ('/', r) :: (s.takeWhile (fun c => decide (c.1 ≠ '\n')) ++ ('\n', t) :: gap), ?_, ?_⟩
      · rw [List.cons_append, List.cons_append, List.append_assoc, hs]
      · rw [List.map_cons, List.map_cons, List.map_append, List.map_cons]
        exact .line hbody htrivia.of_break
  | case3 q r s rest' hcomment ih =>
    obtain ⟨hblank, gap, rfl, htrivia⟩ := ih h
    obtain ⟨body, p', q', rfl, hbody⟩ := exists_body_of_skipComment? hcomment
    refine ⟨hblank, ('/', q) :: ('*', r) :: (body ++ ('*', p') :: ('/', q') :: gap), by simp, ?_⟩
    simpa using IsTrivia.block hbody htrivia
  | case4 => cases h
  | case5 d q s _ _ hblank ih =>
    obtain ⟨hc, gap, rfl, htrivia⟩ := ih h
    exact ⟨hc, (d, q) :: gap, rfl, .blank hblank htrivia⟩
  | case6 d q s _ _ hblank =>
    obtain ⟨heq, rfl⟩ := List.cons.inj (Except.ok.inj h)
    obtain ⟨rfl, rfl⟩ := Prod.mk.inj heq
    exact ⟨by simpa using hblank, [], rfl, .nil⟩

/-! ## Readers that stop by themselves -/

/-- Whether a reader takes what it reads off the beginning of a text and does not look at what follows. -/
def StopsItself {α : Type} (read : Located → Read α) : Prop :=
  ∀ ⦃s rest : Located⦄ ⦃a : α⦄, read s = .ok (a, rest) → ∃ w, s = w ++ rest ∧ ∀ t, read (w ++ t) = .ok (a, t)

theorem stopsItself_bracedDigits (done : List Char) : StopsItself (bracedDigits done) := by
  intro s rest digits h
  fun_induction bracedDigits done s with
  | case1 => cases h
  | case2 done p s =>
    obtain ⟨rfl, rfl⟩ := Prod.mk.inj (Except.ok.inj h)
    exact ⟨[('\x7d', p)], rfl, fun t => by simp [bracedDigits]⟩
  | case3 done c p s hbrace hdigit ih =>
    obtain ⟨w, rfl, hw⟩ := ih h
    exact ⟨(c, p) :: w, rfl, fun t => by rw [List.cons_append, bracedDigits, if_neg hbrace, if_pos hdigit, hw]⟩
  | case4 => cases h

theorem stopsItself_fixedDigits (done : List Char) (count : Nat) : StopsItself (fixedDigits done count) := by
  intro s rest digits h
  fun_induction fixedDigits done count s with
  | case1 done s =>
    obtain ⟨rfl, rfl⟩ := Prod.mk.inj (Except.ok.inj h)
    exact ⟨[], rfl, fun t => by rw [List.nil_append, fixedDigits]⟩
  | case2 => cases h
  | case3 done count c p s hdigit ih =>
    obtain ⟨w, rfl, hw⟩ := ih h
    exact ⟨(c, p) :: w, rfl, fun t => by rw [List.cons_append, fixedDigits, if_pos hdigit, hw]⟩
  | case4 => cases h

theorem stopsItself_escapeDigits : StopsItself escapeDigits := by
  intro s rest digits h
  fun_cases escapeDigits s with
  | case1 p s =>
    obtain ⟨w, rfl, hw⟩ := stopsItself_bracedDigits [] h
    exact ⟨('\x7b', p) :: w, rfl, hw⟩
  | case2 s hs =>
    rw [escapeDigits.eq_2 s hs] at h
    rcases s with _ | ⟨⟨c, p⟩, s⟩
    · cases h
    · by_cases hdigit : isHexDigit c = true
      · obtain ⟨w, rfl, hw⟩ := stopsItself_fixedDigits [c] 3 (by rwa [fixedDigits, if_pos hdigit] at h)
        refine ⟨(c, p) :: w, rfl, fun t => ?_⟩
        rw [List.cons_append, escapeDigits_of_digit hdigit, fixedDigits, if_pos hdigit, hw]
      · rw [fixedDigits, if_neg hdigit] at h
        cases h

theorem stopsItself_codePoint (digits : List Char) : StopsItself (codePoint digits) := by
  intro s rest c h
  unfold codePoint at h
  split at h
  · next hvalid =>
    obtain ⟨rfl, rfl⟩ := Prod.mk.inj (Except.ok.inj h)
    exact ⟨[], rfl, fun t => if_pos hvalid⟩
  · cases h

theorem stopsItself_escape (inSet : Bool) : StopsItself (escape inSet) := by
  intro s rest c h
  fun_cases escape inSet s with
  | case1 => cases h
  | case2 d p s c' hletter =>
    rw [escape, hletter] at h
    obtain ⟨rfl, rfl⟩ := Prod.mk.inj (Except.ok.inj h)
    exact ⟨[(d, p)], rfl, fun t => by simp [escape, hletter]⟩
  | case3 p s digits s' hdigits hletter =>
    rw [escape_u inSet hdigits] at h
    obtain ⟨w, rfl, hw⟩ := stopsItself_escapeDigits hdigits
    obtain ⟨v, rfl, hv⟩ := stopsItself_codePoint digits h
    refine ⟨('u', p) :: (w ++ v), by simp, fun t => ?_⟩
    rw [List.cons_append, List.append_assoc, escape_u inSet (hw (v ++ t)), hv]
  | case4 => simp_all [escape]
  | case5 => simp_all [escape, stop]
  | case6 => simp_all [escape, stop]

theorem stopsItself_literal (done : List Char) : StopsItself (literal done) := by
  intro s rest text h
  fun_induction literal done s with
  | case1 => cases h
  | case2 done p s =>
    obtain ⟨rfl, rfl⟩ := Prod.mk.inj (Except.ok.inj h)
    exact ⟨[('\'', p)], rfl, fun t => by simp [literal]⟩
  | case3 => cases h
  | case4 done p s d s' hescape _ _ ih =>
    obtain ⟨v, rfl, hv⟩ := stopsItself_escape false hescape
    obtain ⟨w, rfl, hw⟩ := ih h
    refine ⟨('\\', p) :: (v ++ w), by simp, fun t => ?_⟩
    rw [List.cons_append, literal_backslash, List.append_assoc, hv]
    exact hw t
  | case5 => cases h
  | case6 done c p s hquote hbreak hslash ih =>
    obtain ⟨w, rfl, hw⟩ := ih h
    refine ⟨(c, p) :: w, rfl, fun t => ?_⟩
    rw [List.cons_append, literal, if_neg hquote, if_neg hbreak, if_neg hslash, hw]

theorem stopsItself_setChars (done : List (Char × Bool)) : StopsItself (setChars done) := by
  intro s rest chars h
  fun_induction setChars done s with
  | case1 => cases h
  | case2 done p s =>
    obtain ⟨rfl, rfl⟩ := Prod.mk.inj (Except.ok.inj h)
    exact ⟨[(']', p)], rfl, fun t => by simp [setChars]⟩
  | case3 done p s d s' hescape _ ih =>
    obtain ⟨v, rfl, hv⟩ := stopsItself_escape true hescape
    obtain ⟨w, rfl, hw⟩ := ih h
    refine ⟨('\\', p) :: (v ++ w), by simp, fun t => ?_⟩
    rw [List.cons_append, setChars_backslash, List.append_assoc, hv]
    exact hw t
  | case4 => cases h
  | case5 done c p s hbracket hslash ih =>
    obtain ⟨w, rfl, hw⟩ := ih h
    refine ⟨(c, p) :: w, rfl, fun t => ?_⟩
    rw [List.cons_append, setChars, if_neg hbracket, if_neg hslash, hw]

theorem stopsItself_set : StopsItself set := by
  intro s rest items h
  unfold set at h
  split at h
  · next chars s' hchars =>
    obtain ⟨w, rfl, hw⟩ := stopsItself_setChars [] hchars
    split at h
    · next hitems =>
      obtain ⟨rfl, rfl⟩ := Prod.mk.inj (Except.ok.inj h)
      refine ⟨w, rfl, fun t => ?_⟩
      simp only [set, hw, hitems]
    · cases h
  · cases h

theorem stopsItself_action (depth : Nat) (mark? : Option Char) (done : List Char) : StopsItself (action depth mark? done) := by
  intro s rest body h
  fun_induction action depth mark? done s with
  | case1 => cases h
  | case2 depth done p mark d q s ih =>
    obtain ⟨w, rfl, hw⟩ := ih h
    refine ⟨('\\', p) :: (d, q) :: w, rfl, fun t => ?_⟩
    rw [← hw t]
    simp [action]
  | case3 => cases h
  | case4 depth done c p s mark hslash ih =>
    obtain ⟨w, rfl, hw⟩ := ih h
    refine ⟨(c, p) :: w, rfl, fun t => ?_⟩
    rw [← hw t, List.cons_append, action.eq_def]
    simp [hslash]
  | case5 depth done p s ih =>
    obtain ⟨w, rfl, hw⟩ := ih h
    refine ⟨('\x7b', p) :: w, rfl, fun t => ?_⟩
    rw [← hw t]
    simp [action]
  | case6 done p s =>
    obtain ⟨rfl, rfl⟩ := Prod.mk.inj (Except.ok.inj h)
    exact ⟨[('\x7d', p)], rfl, fun t => by simp [action]⟩
  | case7 done p s depth _ ih =>
    obtain ⟨w, rfl, hw⟩ := ih h
    refine ⟨('\x7d', p) :: w, rfl, fun t => ?_⟩
    rw [← hw t]
    simp [action]
  | case8 depth done c p s hopen hclose ih =>
    obtain ⟨w, rfl, hw⟩ := ih h
    refine ⟨(c, p) :: w, rfl, fun t => ?_⟩
    rw [← hw t]
    simp [action, hopen, hclose]

/-! ## Symbols and what follows them -/

theorem goesOn_wordSymbol (c : Char) (word : List Char) : (wordSymbol c word).goesOn = isNameChar := by
  unfold wordSymbol
  -- a token and a rule of the parser have names of the same characters
  split <;> rfl

theorem goesOn_eq_false_of_isBlank {d : Char} (found : Symbol) (h : Text.isBlank d = true) : found.goesOn d = false := by
  have hother (c : Char) (hc : Text.isBlank c = false) : d ≠ c := by
    rintro rfl
    rw [h] at hc
    cases hc
  cases found with
  | tokenName | ruleName => exact isNameChar_eq_false_of_isBlank h
  | integer =>
    refine Bool.eq_false_iff.mpr fun hdigit => ?_
    have hname : isNameChar d = true := by simp [isNameChar, Text.isNumeric_of_isDigit hdigit]
    rw [isNameChar_eq_false_of_isBlank h] at hname
    cases hname
  | colon | dot | plus => exact decide_eq_false (hother _ (by decide))
  | _ => rfl

theorem goesOn_slash (found : Symbol) : found.goesOn '/' = false := by
  have hname : isNameChar '/' = false := by decide +kernel
  cases found <;> simp [Symbol.goesOn, hname]

/-- Whether a text does not go on with a symbol. -/
def Symbol.EndsBefore (found : Symbol) (s : Located) : Prop := ∀ x ∈ s.head?, found.goesOn x.1 = false

/-- White space and comments go on with no symbol. -/
theorem Symbol.endsBefore_append {gap s : Located} {found : Symbol} (h : IsTrivia (gap.map Prod.fst))
    (hs : found.EndsBefore s) : found.EndsBefore (gap ++ s) := by
  generalize htext : gap.map Prod.fst = text at h
  cases h with
  | nil => rwa [List.map_eq_nil_iff.mp htext]
  | blank hc =>
    obtain ⟨p, gap, rfl, -⟩ := exists_cons_of_map htext
    simpa [EndsBefore] using goesOn_eq_false_of_isBlank found hc
  | line | block =>
    obtain ⟨p, gap, rfl, -⟩ := exists_cons_of_map htext
    simpa [EndsBefore] using goesOn_slash found

/-- A symbol of one or two characters is one of the list. -/
theorem mem_markTexts_of_mark? {c : Char} {after : Option Char} {found : Symbol} {both : Bool}
    (h : mark? c after = some (found, both)) : (found, c, if both then after else none) ∈ markTexts := by
  unfold mark? at h
  split at h
  all_goals cases h
  all_goals simp [markTexts]

/-- A symbol of two characters has a second one, and one that could have gone on did not. -/
theorem after_of_mark? {c : Char} {after : Option Char} {found : Symbol} {both : Bool}
    (h : mark? c after = some (found, both)) :
    (both = true → after ≠ none) ∧ ∀ d, found.goesOn d = true → both = false ∧ after ≠ some d := by
  unfold mark? at h
  split at h
  all_goals cases h
  all_goals simp_all [Symbol.goesOn]

/-- A symbol of one or two characters is read in the same way before another text that does not go on with it. -/
theorem mark_before {c : Char} (p : Position) {s : Located} {mark : Symbol} {both : Bool}
    (h : mark? c (s.head?.map Prod.fst) = some (mark, both)) :
    ∃ w, s = w ++ (if both then s.drop 1 else s) ∧ mark.EndsBefore (if both then s.drop 1 else s) ∧
      ∀ t : Located, mark.EndsBefore t → symbol c p (w ++ t) = .ok (mark, t) := by
  obtain ⟨hsecond, hafter⟩ := after_of_mark? h
  have hmem := mem_markTexts_of_mark? h
  obtain ⟨hfirst, hdigit, hletter, -⟩ := mark_first _ hmem
  cases both with
  | false =>
    refine ⟨[], rfl, fun x hx => Bool.eq_false_iff.mpr fun hgoes => (hafter x.1 hgoes).2 ?_, fun t ht => ?_⟩
    · rw [if_neg Bool.false_ne_true] at hx
      rw [hx]
      rfl
    · have hnext : ∀ d ∈ t.head?.map Prod.fst, mark.goesOn d = false := Option.forall_mem_map.mpr ht
      exact symbol_of_mark ⟨hfirst, hdigit, hletter⟩ (mark?_eq_some _ hmem _ (by simp) fun _ => hnext)
  | true =>
    obtain ⟨⟨d, q⟩, s, rfl⟩ := List.exists_cons_of_ne_nil (by simpa using hsecond rfl)
    refine ⟨[(d, q)], rfl, fun x _ => Bool.eq_false_iff.mpr fun hgoes => ?_, fun t _ => ?_⟩
    · exact absurd (hafter x.1 hgoes).1 (by decide)
    · exact @symbol_of_mark c p ((d, q) :: t) _ true ⟨hfirst, hdigit, hletter⟩ h

/-- A span ends where its condition fails, and wherever else it fails. -/
theorem exists_spanOf (p : Char → Bool) (s : Located) :
    ∃ w, s = w ++ (spanOf p s).2 ∧ (∀ x ∈ (spanOf p s).2.head?, p x.1 = false) ∧
      ∀ t : Located, (∀ x ∈ t.head?, p x.1 = false) → spanOf p (w ++ t) = ((spanOf p s).1, t) := by
  have hstop : ∀ x ∈ (s.dropWhile fun x => p x.1).head?, p x.1 = false := by
    intro x hx
    have hnot := List.head?_dropWhile_not (fun x : Char × Position => p x.1) s
    rw [hx] at hnot
    simpa using hnot
  refine ⟨s.takeWhile fun x => p x.1, List.takeWhile_append_dropWhile.symm, hstop, fun t ht => spanOf_append ?_ ?_⟩
  · exact fun c hc => mem_spanOf hc
  · rw [List.head?_map]
    exact Option.forall_mem_map.mpr ht

/-- A symbol whose reader stops by itself is read whatever follows. -/
theorem StopsItself.symbol_before {α : Type} {read : Located → Read α} (hread : StopsItself read) {f : α → Symbol}
    (hf : ∀ a d, (f a).goesOn d = false) {s rest : Located} {found : Symbol}
    (h : (read s).map (fun r => (f r.1, r.2)) = .ok (found, rest)) :
    ∃ w, s = w ++ rest ∧ found.EndsBefore rest ∧ ∀ t, (read (w ++ t)).map (fun r => (f r.1, r.2)) = .ok (found, t) := by
  cases hs : read s with
  | error e =>
    rw [hs] at h
    cases h
  | ok x =>
    obtain ⟨a, after⟩ := x
    rw [hs] at h
    obtain ⟨rfl, rfl⟩ := Prod.mk.inj (Except.ok.inj h)
    obtain ⟨w, rfl, hw⟩ := hread hs
    exact ⟨w, rfl, fun x _ => hf a x.1, fun t => by rw [hw]; rfl⟩

/-- A symbol is read in the same way before another text that does not go on with it. -/
theorem symbol_before {c : Char} {p : Position} {s rest : Located} {found : Symbol}
    (h : symbol c p s = .ok (found, rest)) :
    ∃ w, s = w ++ rest ∧ found.EndsBefore rest ∧
      ∀ t : Located, found.EndsBefore t → symbol c p (w ++ t) = .ok (found, t) := by
  by_cases hquote : c = '\''
  · simp only [symbol, if_pos hquote] at h ⊢
    obtain ⟨w, rfl, hrest, hw⟩ := (stopsItself_literal []).symbol_before (fun _ _ => rfl) h
    exact ⟨w, rfl, hrest, fun t _ => hw t⟩
  by_cases hbracket : c = '['
  · simp only [symbol, if_neg hquote, if_pos hbracket] at h ⊢
    obtain ⟨w, rfl, hrest, hw⟩ := stopsItself_set.symbol_before (fun _ _ => rfl) h
    exact ⟨w, rfl, hrest, fun t _ => hw t⟩
  by_cases hbrace : c = '\x7b'
  · simp only [symbol, if_neg hquote, if_neg hbracket, if_pos hbrace] at h ⊢
    obtain ⟨w, rfl, hrest, hw⟩ := (stopsItself_action 0 none []).symbol_before (fun _ _ => rfl) h
    exact ⟨w, rfl, hrest, fun t _ => hw t⟩
  by_cases hdigit : c.isDigit = true
  · simp only [symbol, if_neg hquote, if_neg hbracket, if_neg hbrace, if_pos hdigit] at h ⊢
    obtain ⟨w, hs, hrest, hw⟩ := exists_spanOf Char.isDigit s
    split at h
    · next hmax =>
      obtain ⟨rfl, rfl⟩ := Prod.mk.inj (Except.ok.inj h)
      exact ⟨w, hs, hrest, fun t ht => by rw [hw t ht, if_pos hmax]⟩
    · cases h
  by_cases hletter : (Text.isAlphabetic c || c = '_') = true
  · rw [symbol_of_letter hletter] at h
    obtain ⟨w, hs, hrest, hw⟩ := exists_spanOf isNameChar s
    obtain ⟨rfl, rfl⟩ := Prod.mk.inj (Except.ok.inj h)
    unfold Symbol.EndsBefore
    rw [goesOn_wordSymbol]
    exact ⟨w, hs, hrest, fun t ht => by rw [symbol_of_letter hletter, hw t ht]⟩
  rw [symbol, if_neg hquote, if_neg hbracket, if_neg hbrace, if_neg hdigit, if_neg hletter] at h
  split at h
  · next mark both hmark =>
    obtain ⟨rfl, rfl⟩ := Prod.mk.inj (Except.ok.inj h)
    exact mark_before p hmark
  · cases h

/-- No symbol begins with a slash. -/
theorem ne_slash_of_symbol {c : Char} {p : Position} {s rest : Located} {found : Symbol}
    (h : symbol c p s = .ok (found, rest)) : c ≠ '/' := by
  rintro rfl
  have hletter : ¬(Text.isAlphabetic '/' || '/' = '_') = true := by decide +kernel
  rw [symbol, if_neg (by decide), if_neg (by decide), if_neg (by decide), if_neg (by decide), if_neg hletter] at h
  cases h

/-! ## Runs over symbols -/

/-- Whether symbols are read off the beginning of a text, one after the other, and what is left then. -/
inductive Scans : Located → List Placed → Located → Prop
  | refl (s : Located) : Scans s [] s
  | step {s t u v : Located} {c : Char} {p : Position} {found : Symbol} {placed : List Placed}
      (hskip : skipTrivia s = .ok ((c, p) :: t)) (hsymbol : symbol c p t = .ok (found, u)) (h : Scans u placed v) :
      Scans s ((found, p) :: placed) v

namespace Scans

variable {s v : Located} {placed : List Placed}

/-- The symbols of the text are those that are read first and then those of what is left. -/
theorem symbolsFrom_eq (h : Scans s placed v) (done : List Placed) :
    symbolsFrom done s = symbolsFrom (placed.reverse ++ done) v := by
  induction h generalizing done with
  | refl => rfl
  | step hskip hsymbol _ ih =>
    rw [Grammar.symbolsFrom_eq, hskip]
    dsimp only
    rw [hsymbol]
    dsimp only
    rw [ih, List.reverse_cons, List.append_assoc]
    rfl

/-- The same symbols are read if something else is left, provided that it does not go on with a symbol either. -/
theorem replace (h : Scans s placed v) : ∃ w, s = w ++ v ∧
    ∀ t, (∀ found : Symbol, found.EndsBefore v → found.EndsBefore t) → Scans (w ++ t) placed t := by
  induction h with
  | refl s => exact ⟨[], rfl, fun t _ => .refl t⟩
  | @step s t u v c p found placed hskip hsymbol _ ih =>
    obtain ⟨hblank, gap, rfl, hgap⟩ := exists_isTrivia_of_skipTrivia hskip
    obtain ⟨w, rfl, hend, hbefore⟩ := symbol_before hsymbol
    obtain ⟨rest, rfl, hrest⟩ := ih
    refine ⟨gap ++ (c, p) :: (w ++ rest), by simp, fun t ht => ?_⟩
    have hnext : found.EndsBefore (rest ++ t) := by
      cases rest with
      | nil => exact ht found hend
      | cons x rest => exact hend
    have hskip' : skipTrivia (gap ++ (c, p) :: (w ++ rest) ++ t) = .ok ((c, p) :: (w ++ (rest ++ t))) := by
      rw [List.append_assoc, skipTrivia_append hgap, List.cons_append, List.append_assoc]
      exact skipTrivia_cons hblank (ne_slash_of_symbol hsymbol) p _
    exact .step hskip' (hbefore _ hnext) (hrest t ht)

theorem unplaced (h : Scans s placed v) : Scans (unplaced s) (unplaced placed) (unplaced v) := by
  induction h with
  | refl s => exact .refl _
  | @step s t u v c p found placed hskip hsymbol _ ih =>
    have hskip' := skipTrivia_unplaced s
    have hsymbol' := symbol_unplaced c p t
    rw [hskip] at hskip'
    rw [hsymbol] at hsymbol'
    exact .step hskip' hsymbol' ih

end Scans

theorem symbolsFrom_append {gap : Located} (h : IsTrivia (gap.map Prod.fst)) (done : List Placed) (s : Located) :
    symbolsFrom done (gap ++ s) = symbolsFrom done s := by
  rw [symbolsFrom_eq, skipTrivia_append h, ← symbolsFrom_eq]

/-! ## Sources -/

/-- Whether a beginning of a source ends where one of the symbols ends that are read in the source. -/
def EndsSymbol (s₁ s₂ : String) : Prop :=
  ∃ placed last left, Scans (Position.locate (s₁ ++ s₂).toList) (placed ++ [last]) left ∧ left.map Prod.fst = s₂.toList

theorem map_fst_locate (s : List Char) : (Position.locate s).map Prod.fst = s := map_fst_locateFrom .start [] s

theorem unplaced_locate_append (s t : List Char) :
    unplaced (Position.locate (s ++ t)) = unplaced (Position.locate s) ++ unplaced (Position.locate t) := by
  refine Eq.trans (unplaced_congr ?_) (List.map_append : unplaced (Position.locate s ++ Position.locate t) = _)
  rw [List.map_append, map_fst_locate, map_fst_locate, map_fst_locate]

variable {s₁ t s₂ : String}

/-- With all positions forgotten, a run over symbols is followed by another one for the same symbols, whatever the white space
and the comments are that stand after the last of them. -/
theorem symbolsFrom_insert (hend : s₁ = "" ∨ EndsSymbol s₁ s₂) (ht : IsTrivia t.toList) :
    symbolsFrom [] (unplaced (Position.locate (s₁ ++ t ++ s₂).toList)) =
      symbolsFrom [] (unplaced (Position.locate (s₁ ++ s₂).toList)) := by
  have hgap : IsTrivia ((unplaced (Position.locate t.toList)).map Prod.fst) := by
    rwa [map_fst_unplaced, map_fst_locate]
  obtain ⟨placed, left, hrun, hleft⟩ : ∃ placed left, Scans (Position.locate (s₁ ++ s₂).toList) placed left ∧
      left.map Prod.fst = s₂.toList := by
    rcases hend with rfl | ⟨placed, last, left, hrun, hleft⟩
    · exact ⟨[], _, .refl _, by rw [map_fst_locate, String.empty_append]⟩
    · exact ⟨placed ++ [last], left, hrun, hleft⟩
  have hscan := hrun.unplaced
  have hrest : unplaced left = unplaced (Position.locate s₂.toList) := unplaced_congr (by rw [hleft, map_fst_locate])
  rw [hrest, String.toList_append, unplaced_locate_append] at hscan
  obtain ⟨w, hw, hother⟩ := hscan.replace
  obtain rfl := List.append_cancel_right hw
  have hinsert := hother _ fun found hfound => Symbol.endsBefore_append hgap hfound
  rw [String.toList_append, String.toList_append, String.toList_append, List.append_assoc, unplaced_locate_append,
    unplaced_locate_append, unplaced_locate_append, hinsert.symbolsFrom_eq, hscan.symbolsFrom_eq, symbolsFrom_append hgap]

theorem symbols_insert (hend : s₁ = "" ∨ EndsSymbol s₁ s₂) (ht : IsTrivia t.toList) :
    ((symbols (s₁ ++ t ++ s₂)).map unplaced).mapError Error.unplaced =
      ((symbols (s₁ ++ s₂)).map unplaced).mapError Error.unplaced := by
  rw [symbols_unplaced, symbols_unplaced, symbolsFrom_insert hend ht]

theorem read_insert (hend : s₁ = "" ∨ EndsSymbol s₁ s₂) (ht : IsTrivia t.toList) :
    ((read (s₁ ++ t ++ s₂)).1.map unplacedRules).mapError Error.unplaced =
        ((read (s₁ ++ s₂)).1.map unplacedRules).mapError Error.unplaced ∧
      (read (s₁ ++ t ++ s₂)).2 = (read (s₁ ++ s₂)).2 := by
  have hread := read_unplaced (s₁ ++ t ++ s₂)
  rw [symbols_insert hend ht, ← read_unplaced] at hread
  exact Prod.mk.inj hread

theorem map_mapError_congr {ε ε' α β γ : Type} {x y : Except ε α} {f : α → β} {e : ε → ε'} (g : β → γ)
    (h : (x.map f).mapError e = (y.map f).mapError e) :
    (x.map fun a => g (f a)).mapError e = (y.map fun a => g (f a)).mapError e := by
  have hmap (x : Except ε α) : (x.map fun a => g (f a)).mapError e = ((x.map f).mapError e).map g := by
    cases x <;> rfl
  rw [hmap, hmap, h]

/-- White space and comments between symbols do not matter: put after a symbol, or before all of them, they change neither
the symbols nor what grammar they make up, and of errors only where they are. -/
theorem trivia_between_symbols (hend : s₁ = "" ∨ EndsSymbol s₁ s₂) (ht : IsTrivia t.toList) :
    ((symbols (s₁ ++ t ++ s₂)).map (List.map Prod.fst)).mapError Error.unplaced =
        ((symbols (s₁ ++ s₂)).map (List.map Prod.fst)).mapError Error.unplaced ∧
      ((parse (s₁ ++ t ++ s₂)).map Grammar.withoutLines).mapError Error.unplaced =
        ((parse (s₁ ++ s₂)).map Grammar.withoutLines).mapError Error.unplaced := by
  have hlines (g : Grammar) : (unplacedRules g).withoutLines = g.withoutLines := by
    simp [unplacedRules, Grammar.withoutLines, Rule.withoutLine, Rule.unplaced]
  have hsymbols := map_mapError_congr (List.map Prod.fst) (symbols_insert hend ht)
  have hparse := map_mapError_congr Grammar.withoutLines (read_insert hend ht).1
  simp only [map_fst_unplaced] at hsymbols
  simp only [hlines] at hparse
  exact ⟨hsymbols, hparse⟩

/-- A comment with a quote, a brace and a star in it, and one of a quote and a brace, before a literal of slashes. -/
theorem trivia_between_symbols_comments : EndsSymbol "A:" "'//';" ∧ IsTrivia "/*'\x7b**/ //\"\x7d\n".toList ∧
    ((symbols ("A:" ++ "/*'\x7b**/ //\"\x7d\n" ++ "'//';")).map (List.map Prod.fst)).mapError Error.unplaced =
        ((symbols ("A:" ++ "'//';")).map (List.map Prod.fst)).mapError Error.unplaced ∧
      ((parse ("A:" ++ "/*'\x7b**/ //\"\x7d\n" ++ "'//';")).map Grammar.withoutLines).mapError Error.unplaced =
        ((parse ("A:" ++ "'//';")).map Grammar.withoutLines).mapError Error.unplaced := by
  have hend : EndsSymbol "A:" "'//';" := by
    refine ⟨[(.tokenName "A", ⟨0, 1, 1⟩)], (.colon, ⟨1, 1, 2⟩), (Position.locate "A:'//';".toList).drop 2, ?_, by decide⟩
    exact .step (by cbv) (by cbv) (.step (by cbv) (by cbv) (.refl _))
  have htrivia : IsTrivia "/*'\x7b**/ //\"\x7d\n".toList :=
    @IsTrivia.block "'\x7b*".toList _ (by decide) (.blank (by decide) (@IsTrivia.line "\"\x7d".toList _ (by decide) .nil))
  exact ⟨hend, htrivia, trivia_between_symbols (.inr hend) htrivia⟩

end Lexeme.Grammar
