import Lexeme.Matcher
import Lexeme.Proofs.Segment

/-!
# Maximal munch

At every place of a text the winner is a matcher with the longest match, and the one of the lowest category if there are
several (`Matcher.Wins`). `Matcher.Munched` says of a text that it begins with consecutive segments, each the match of the
winner at its place.

* The question whether a matcher matches at all is answered by `accepts` exactly when it has a match
  (`isSome_matchLength?`), so asking it first changes nothing (`best?_eq_foldl`).
* The best match is that of the winner (`best?_eq_some_iff`), if the categories of the matchers ascend.
* A text is cut into the segments that it begins with, up to its end or to a place without a winner (`cut_of_munched`).
-/

namespace Lexeme

/-! ## Runs of a program -/

namespace Pattern.Program

variable {program : Program} {goal : Goal}

/-- What has been matched once stays matched. -/
theorem isSome_run_of_best (s : List Char) : ∀ (threads : List Nat) (count n : Nat),
    (program.run goal threads count (some n) s).isSome := by
  induction s with
  | nil =>
    intro threads count n
    simp only [run]
    split <;> rfl
  | cons c rest ih =>
    intro threads count n
    simp only [run]
    split
    · split <;> rfl
    · split
      · exact ih _ _ _
      · exact ih _ _ _

/-- While no thread has accepted, all threads go on, whatever the goal is. -/
theorem survivors_of_not_accept {threads : List Nat} (h : threads.any program.isAccept = false) :
    program.survivors goal threads = threads := by
  have hnot : ∀ address ∈ threads, (!program.isAccept address) = true := by
    intro address haddress
    simp [List.any_eq_false.mp h address haddress]
  cases goal with
  | longest => exact List.filter_eq_self.mpr hnot
  | first =>
    simp only [survivors]
    induction threads with
    | nil => rfl
    | cons address threads ih =>
      rw [List.any_cons, Bool.or_eq_false_iff] at h
      have hhead := hnot address List.mem_cons_self
      have htail := ih h.2 fun a ha => hnot a (List.mem_cons_of_mem _ ha)
      simp only [List.takeWhile_cons, hhead, if_true, htail]

/-- A run finds a match exactly when some thread accepts on the way. -/
theorem isSome_run (s : List Char) : ∀ (threads : List Nat) (count : Nat),
    (program.run goal threads count none s).isSome = program.accepts threads s := by
  induction s with
  | nil =>
    intro threads count
    simp only [run, accepts]
    cases threads.any program.isAccept <;> rfl
  | cons c rest ih =>
    intro threads count
    simp only [run, accepts]
    cases hany : threads.any program.isAccept with
    | true =>
      simp only [if_true, Bool.true_or]
      split
      · rfl
      · exact isSome_run_of_best _ _ _ _
    | false =>
      rw [survivors_of_not_accept hany]
      cases threads with
      | nil => rfl
      | cons address threads => simpa using ih (program.step c (address :: threads)) (count + 1)

/-- A match is no longer than the text. -/
theorem run_le (s : List Char) : ∀ (threads : List Nat) (count n : Nat) (best : Option Nat),
    program.run goal threads count best s = some n → best = some n ∨ n ≤ count + s.length := by
  induction s with
  | nil =>
    intro threads count n best h
    simp only [run] at h
    split at h
    · cases h
      exact .inr (Nat.le_refl _)
    · exact .inl h
  | cons c rest ih =>
    intro threads count n best h
    have hnow {found : Option Nat}
        (h : (if threads.any program.isAccept then some count else best) = found) (hn : found = some n) :
        best = some n ∨ n ≤ count + (c :: rest).length := by
      subst hn
      split at h
      · cases h
        exact .inr (Nat.le_add_right _ _)
      · exact .inl h
    simp only [run] at h
    split at h
    · exact hnow rfl h
    · rcases ih _ _ _ _ h with h | h
      · exact hnow rfl h
      · refine .inr ?_
        simp only [List.length_cons]
        omega

end Pattern.Program

namespace Matcher

variable {matchers : List Matcher} {s : List Char} {m : Matcher} {n : Nat}

/-- A matcher has a match exactly when it says so before it is run. -/
theorem isSome_matchLength? (m : Matcher) (s : List Char) : (m.matchLength? s).isSome = m.machine.accepts s :=
  Pattern.Program.isSome_run s _ _

theorem matchLength?_le (h : m.matchLength? s = some n) : n ≤ s.length := by
  rcases Pattern.Program.run_le s _ _ _ _ h with h | h
  · cases h
  · rwa [Nat.zero_add] at h

/-! ## The winner -/

/-- Whether a matcher has the longest match at the beginning of a text, of a number of characters that is not zero, and
the lowest category among the matchers with a match of that length. -/
structure Wins (matchers : List Matcher) (s : List Char) (n : Nat) (m : Matcher) : Prop where
  mem : m ∈ matchers
  matches_eq : m.matchLength? s = some n
  pos : 0 < n
  longest : ∀ other ∈ matchers, ∀ k, other.matchLength? s = some k → k ≤ n
  lowest : ∀ other ∈ matchers, other.matchLength? s = some n → m.category ≤ other.category

/-- Whether no matcher has a match that counts. -/
def Fails (matchers : List Matcher) (s : List Char) : Prop :=
  ∀ m ∈ matchers, ∀ n, m.matchLength? s = some n → n = 0

/-- Whether the categories of matchers ascend. -/
def Ascending (matchers : List Matcher) : Prop := matchers.Pairwise (·.category < ·.category)

/-- What the best match so far says about the matchers that have been looked at. -/
def Leads (seen : List Matcher) (s : List Char) : Option (Nat × Matcher) → Prop
  | none => Fails seen s
  | some (n, m) => Wins seen s n m

theorem forall_mem_concat {seen : List Matcher} {P : Matcher → Prop} :
    (∀ other ∈ seen ++ [m], P other) ↔ (∀ other ∈ seen, P other) ∧ P m := by
  rw [List.forall_mem_append, List.forall_mem_singleton]

/-- A matcher without a match that counts changes nothing. -/
theorem Leads.skip {seen : List Matcher} {best : Option (Nat × Matcher)} (h : Leads seen s best)
    (hm : ∀ k, m.matchLength? s = some k → k = 0) : Leads (seen ++ [m]) s best := by
  cases best with
  | none => exact forall_mem_concat.mpr ⟨h, hm⟩
  | some b =>
    obtain ⟨n, w⟩ := b
    obtain ⟨hmem, hmatch, hpos, hlongest, hlowest⟩ := h
    have hshort : ∀ k, m.matchLength? s = some k → k ≤ n := by
      intro k hk
      rw [hm k hk]
      exact Nat.zero_le n
    have hother : m.matchLength? s = some n → w.category ≤ m.category :=
      fun hk => absurd (hm n hk) (Nat.ne_of_gt hpos)
    exact ⟨List.mem_append_left _ hmem, hmatch, hpos, forall_mem_concat.mpr ⟨hlongest, hshort⟩,
      forall_mem_concat.mpr ⟨hlowest, hother⟩⟩

/-- A match that is longer than all before wins. -/
theorem Leads.beat {seen : List Matcher} {best : Option (Nat × Matcher)} (h : Leads seen s best)
    (hm : m.matchLength? s = some n) (hpos : 0 < n) (hbest : best.all (·.1 < n)) : Wins (seen ++ [m]) s n m := by
  -- no matcher before has a match of that length
  have hseen : ∀ other ∈ seen, ∀ k, other.matchLength? s = some k → k < n := by
    intro other hother k hk
    cases best with
    | none => rw [h other hother k hk]; exact hpos
    | some b => exact Nat.lt_of_le_of_lt (h.longest other hother k hk) (by simpa using hbest)
  refine ⟨by simp, hm, hpos, forall_mem_concat.mpr ⟨?_, ?_⟩, forall_mem_concat.mpr ⟨?_, ?_⟩⟩
  · intro other hother k hk
    exact Nat.le_of_lt (hseen other hother k hk)
  · intro k hk
    rw [hm] at hk
    exact Nat.le_of_eq (Option.some.inj hk).symm
  · intro other hother hk
    exact absurd (hseen other hother n hk) (Nat.lt_irrefl n)
  · intro _
    exact Nat.le_refl m.category

/-- A match that is not longer than the best so far does not win over a lower category. -/
theorem Wins.keep {seen : List Matcher} {w : Matcher} {k : Nat} (h : Wins seen s n w) (hm : m.matchLength? s = some k)
    (hk : k ≤ n) (hcategory : ∀ other ∈ seen, other.category < m.category) : Wins (seen ++ [m]) s n w := by
  obtain ⟨hmem, hmatch, hpos, hlongest, hlowest⟩ := h
  have hshort : ∀ j, m.matchLength? s = some j → j ≤ n := by
    intro j hj
    rw [hm] at hj
    rw [← Option.some.inj hj]
    exact hk
  have hother : m.matchLength? s = some n → w.category ≤ m.category := fun _ => Nat.le_of_lt (hcategory w hmem)
  exact ⟨List.mem_append_left _ hmem, hmatch, hpos, forall_mem_concat.mpr ⟨hlongest, hshort⟩,
    forall_mem_concat.mpr ⟨hlowest, hother⟩⟩

/-- Looking at one more matcher, of a higher category, keeps the best match right. -/
theorem leads_better {seen : List Matcher} {best : Option (Nat × Matcher)} (h : Leads seen s best)
    (hcategory : ∀ other ∈ seen, other.category < m.category) : Leads (seen ++ [m]) s (better s best m) := by
  unfold better
  split
  · next n hn =>
    split
    · next hbeat => exact h.beat hn hbeat.1 hbeat.2
    · next hbeat =>
      cases best with
      | none =>
        refine h.skip fun k hk => ?_
        rw [hn] at hk
        have : ¬0 < n := by simpa using hbeat
        rw [← Option.some.inj hk]
        omega
      | some b =>
        have hle : n ≤ b.1 := by
          have hpos := h.pos
          simp only [Option.all_some, decide_eq_true_eq, not_and] at hbeat
          omega
        exact h.keep hn hle hcategory
  · next hnone => exact h.skip fun k hk => by rw [hnone] at hk; cases hk

/-- Looking at all matchers gives the winner, if there is one. -/
theorem leads_foldl (matchers : List Matcher) : ∀ (seen : List Matcher) (best : Option (Nat × Matcher)),
    Leads seen s best → Ascending (seen ++ matchers) → Leads (seen ++ matchers) s (matchers.foldl (better s) best) := by
  induction matchers with
  | nil => intro seen best h _; simpa using h
  | cons m matchers ih =>
    intro seen best h hascending
    have hcategory : ∀ other ∈ seen, other.category < m.category :=
      fun other hother => (List.pairwise_append.mp hascending).2.2 other hother m List.mem_cons_self
    rw [show seen ++ m :: matchers = (seen ++ [m]) ++ matchers by simp] at hascending ⊢
    exact ih _ _ (leads_better h hcategory) hascending

/-- Asking first which matchers match at all leaves the best match the same. -/
theorem best?_eq_foldl (matchers : List Matcher) (s : List Char) : best? matchers s = matchers.foldl (better s) none := by
  have hfold (ms : List Matcher) (best : Option (Nat × Matcher)) :
      (candidates ms s).foldl (better s) best = ms.foldl (better s) best := by
    induction ms generalizing best with
    | nil => rfl
    | cons m ms ih =>
      unfold candidates
      cases haccepts : m.machine.accepts s with
      | true =>
        rw [List.filter_cons, if_pos haccepts]
        exact ih _
      | false =>
        have hnone : m.matchLength? s = none := by
          rw [← isSome_matchLength?, Option.isSome_eq_false_iff, Option.isNone_iff_eq_none] at haccepts
          exact haccepts
        rw [List.filter_cons_of_neg (by simp [haccepts]), List.foldl_cons,
          show better s best m = best by simp [better, hnone]]
        exact ih best
  exact hfold matchers none

/-- There is only one winner. -/
theorem Wins.unique {k : Nat} {w : Matcher} (hascending : Ascending matchers) (h : Wins matchers s n m)
    (h' : Wins matchers s k w) : n = k ∧ m = w := by
  have hn : n = k := Nat.le_antisymm (h'.longest m h.mem n h.matches_eq) (h.longest w h'.mem k h'.matches_eq)
  subst hn
  have hcategory : m.category = w.category :=
    Nat.le_antisymm (h.lowest w h'.mem h'.matches_eq) (h'.lowest m h.mem h.matches_eq)
  refine ⟨rfl, ?_⟩
  -- two matchers of one category stand at the same place of the list
  obtain ⟨i, hi, rfl⟩ := List.mem_iff_getElem.mp h.mem
  obtain ⟨j, hj, rfl⟩ := List.mem_iff_getElem.mp h'.mem
  rcases Nat.lt_trichotomy i j with hij | rfl | hij
  · exact absurd hcategory (Nat.ne_of_lt (List.pairwise_iff_getElem.mp hascending i j hi hj hij))
  · rfl
  · exact absurd hcategory.symm (Nat.ne_of_lt (List.pairwise_iff_getElem.mp hascending j i hj hi hij))

theorem leads_best? (hascending : Ascending matchers) : Leads matchers s (best? matchers s) := by
  rw [best?_eq_foldl]
  simpa using leads_foldl matchers [] none (by intro m hm; cases hm) (by simpa using hascending)

/-- The best match is the winner's. -/
theorem best?_eq_some_iff (hascending : Ascending matchers) : best? matchers s = some (n, m) ↔ Wins matchers s n m := by
  have hleads := leads_best? (s := s) hascending
  constructor
  · intro h
    rwa [h] at hleads
  · intro h
    cases hbest : best? matchers s with
    | none =>
      rw [hbest] at hleads
      exact absurd (hleads m h.mem n h.matches_eq) (Nat.ne_of_gt h.pos)
    | some b =>
      rw [hbest] at hleads
      obtain ⟨hn, hm⟩ := h.unique hascending hleads
      rw [hn, hm]

/-- There is no best match exactly when no match counts. -/
theorem best?_eq_none_iff (hascending : Ascending matchers) : best? matchers s = none ↔ Fails matchers s := by
  have hleads := leads_best? (s := s) hascending
  constructor
  · intro h
    rwa [h] at hleads
  · intro h
    cases hbest : best? matchers s with
    | none => rfl
    | some b =>
      rw [hbest] at hleads
      exact absurd (h b.2 hleads.mem b.1 hleads.matches_eq) (Nat.ne_of_gt hleads.pos)

/-! ## Cutting a text -/

/-- A text that begins with consecutive segments, each the match of the winner at its place, and what is left of it. -/
inductive Munched (matchers : List Matcher) : List Char → List (Segment Matcher) → List Char → Prop
  | nil (s : List Char) : Munched matchers s [] s
  | cons {text rest left : List Char} {m : Matcher} {segments : List (Segment Matcher)}
      (hwins : Wins matchers (text ++ rest) text.length m) (h : Munched matchers rest segments left) :
      Munched matchers (text ++ rest) (⟨m, text⟩ :: segments) left

/-- The segments are the text up to what is left. -/
theorem Munched.joined_append {segments : List (Segment Matcher)} {left : List Char}
    (h : Munched matchers s segments left) : Segment.joined segments ++ left = s := by
  induction h with
  | nil s => rfl
  | cons _ _ ih => rw [Segment.joined_cons, List.append_assoc, ih]

/-- Every segment is the match of the winner at its place. -/
theorem Munched.exists_wins {segments : List (Segment Matcher)} {left : List Char} (h : Munched matchers s segments left) :
    ∀ segment ∈ segments, ∃ rest, Wins matchers (segment.text ++ rest) segment.text.length segment.kind := by
  induction h with
  | nil s => intro segment hsegment; cases hsegment
  | @cons text rest _ _ _ hwins _ ih =>
    intro segment hsegment
    rcases List.mem_cons.mp hsegment with rfl | hsegment
    · exact ⟨rest, hwins⟩
    · exact ih segment hsegment

/-- No segment is empty. -/
theorem Munched.ne_nil {segments : List (Segment Matcher)} {left : List Char} (h : Munched matchers s segments left) :
    ∀ segment ∈ segments, segment.text ≠ [] := by
  intro segment hsegment
  obtain ⟨rest, hwins⟩ := h.exists_wins segment hsegment
  exact List.length_pos_iff.mp hwins.pos

/-- A text that the winner matches as a whole is one segment. -/
theorem munched_of_wins (h : Wins matchers s s.length m) : Munched matchers s [⟨m, s⟩] [] := by
  have hcons : Munched matchers (s ++ []) [⟨m, s⟩] [] := .cons (by rwa [List.append_nil]) (.nil [])
  rwa [List.append_nil] at hcons

/-- A text that the only matcher matches as a whole is one segment. -/
theorem munched_singleton (hs : s ≠ []) (hm : m.matchLength? s = some s.length) : Munched [m] s [⟨m, s⟩] [] := by
  refine munched_of_wins ⟨List.mem_singleton.mpr rfl, hm, List.length_pos_iff.mpr hs,
    fun other _ k hk => matchLength?_le hk, fun other hother _ => ?_⟩
  exact Nat.le_of_eq (congrArg category (List.mem_singleton.mp hother).symm)

/-- A text that some matcher matches as a whole has a winner that does. -/
theorem exists_wins_of_matchLength? (hascending : Ascending matchers) (hmem : m ∈ matchers) (hs : s ≠ [])
    (hm : m.matchLength? s = some s.length) : ∃ w, Wins matchers s s.length w ∧ w.category ≤ m.category := by
  cases hbest : best? matchers s with
  | none =>
    have hzero := (best?_eq_none_iff hascending).mp hbest m hmem _ hm
    exact absurd (List.length_eq_zero_iff.mp hzero) hs
  | some b =>
    obtain ⟨n, w⟩ := b
    have hwins := (best?_eq_some_iff hascending).mp hbest
    obtain rfl : n = s.length := Nat.le_antisymm (matchLength?_le hwins.matches_eq) (hwins.longest m hmem _ hm)
    exact ⟨w, hwins, hwins.lowest m hmem hm⟩

/-- Whether a cut ends here: at the end of the text, or where no match counts. -/
def Stops (matchers : List Matcher) (left : List Char) : Prop := left = [] ∨ Fails matchers left

/-- A text is cut into the segments that it begins with, if the cut ends after them. -/
theorem cutFrom_of_munched (hascending : Ascending matchers) {segments : List (Segment Matcher)} {left : List Char}
    (h : Munched matchers s segments left) (hstops : Stops matchers left) (done : List (Segment Matcher)) :
    cutFrom matchers done s = ⟨done.reverse ++ segments, left.head?⟩ := by
  induction h generalizing done with
  | nil s =>
    cases s with
    | nil => simp [cutFrom]
    | cons c rest =>
      have hnone := (best?_eq_none_iff hascending).mpr (hstops.resolve_left (by simp))
      rw [cutFrom]
      split
      · next h => rw [hnone] at h; cases h
      · simp
  | @cons text rest left m segments hwins _ ih =>
    have hbest := (best?_eq_some_iff hascending).mpr hwins
    cases text with
    | nil => exact absurd hwins.pos (Nat.lt_irrefl 0)
    | cons c text =>
      rw [List.cons_append] at hbest ⊢
      rw [cutFrom]
      split
      · next h =>
        rw [hbest] at h
        obtain ⟨rfl, rfl⟩ := Prod.mk.inj (Option.some.inj h)
        have htake : (c :: (text ++ rest)).take (c :: text).length = c :: text := by
          rw [← List.cons_append, List.take_left]
        have hdrop : (c :: (text ++ rest)).drop (c :: text).length = rest := by
          rw [← List.cons_append, List.drop_left]
        rw [htake, hdrop, ih hstops]
        simp
      · next h => rw [hbest] at h; cases h

/-- Every text begins with such segments up to where the cut ends. -/
theorem exists_munched (hascending : Ascending matchers) (s : List Char) :
    ∃ segments left, Munched matchers s segments left ∧ Stops matchers left := by
  -- a winner's match is not empty, so what is left is shorter
  induction hlength : s.length using Nat.strongRecOn generalizing s with
  | _ length ih =>
    cases hbest : best? matchers s with
    | none => exact ⟨[], s, .nil s, .inr ((best?_eq_none_iff hascending).mp hbest)⟩
    | some b =>
      obtain ⟨n, m⟩ := b
      have hwins := (best?_eq_some_iff hascending).mp hbest
      have hn := matchLength?_le hwins.matches_eq
      have hpos := hwins.pos
      obtain ⟨segments, left, hmunched, hstops⟩ :=
        ih (s.drop n).length (by rw [List.length_drop]; omega) (s.drop n) rfl
      have hsplit : s.take n ++ s.drop n = s := List.take_append_drop n s
      have hcons : Munched matchers (s.take n ++ s.drop n) (⟨m, s.take n⟩ :: segments) left := by
        refine .cons ?_ hmunched
        rwa [hsplit, List.length_take, Nat.min_eq_left hn]
      rw [hsplit] at hcons
      exact ⟨_, left, hcons, hstops⟩

/-- The segments that a text begins with are those of its cut, if the cut ends after them. -/
theorem cut_of_munched (hascending : Ascending matchers) {segments : List (Segment Matcher)} {left : List Char}
    (h : Munched matchers s segments left) (hstops : Stops matchers left) :
    cut matchers s = ⟨segments, left.head?⟩ := by
  simpa [cut] using cutFrom_of_munched hascending h hstops []

/-- A text begins with the segments of its cut. -/
theorem exists_munched_of_cut (hascending : Ascending matchers) (s : List Char) :
    ∃ left, Munched matchers s (cut matchers s).segments left ∧ Stops matchers left ∧
      (cut matchers s).failure = left.head? := by
  obtain ⟨segments, left, hmunched, hstops⟩ := exists_munched hascending s
  rw [cut_of_munched hascending hmunched hstops]
  exact ⟨left, hmunched, hstops, rfl⟩

/-- Whatever the matchers are, a text is its segments and what is left, and the failure is the character there. -/
theorem exists_joined_cutFrom (done : List (Segment Matcher)) (s : List Char) :
    ∃ segments left, cutFrom matchers done s = ⟨done.reverse ++ segments, left.head?⟩ ∧
      Segment.joined segments ++ left = s := by
  fun_induction cutFrom matchers done s with
  | case1 done => exact ⟨[], [], by simp, rfl⟩
  | case2 done c rest length m _ ih =>
    obtain ⟨segments, left, hcut, hjoined⟩ := ih
    refine ⟨⟨m, (c :: rest).take length⟩ :: segments, left, by simp [hcut], ?_⟩
    rw [Segment.joined_cons, List.append_assoc, hjoined, List.take_append_drop]
  | case3 done c rest => exact ⟨[], c :: rest, by simp, rfl⟩

/-- A whole text is its segments and what is left, which begins with the character of the failure. -/
theorem exists_joined_cut (matchers : List Matcher) (s : List Char) :
    ∃ left, (cut matchers s).failure = left.head? ∧ Segment.joined (cut matchers s).segments ++ left = s := by
  obtain ⟨segments, left, hcut, hjoined⟩ := @exists_joined_cutFrom matchers [] s
  rw [cut, hcut]
  exact ⟨left, rfl, hjoined⟩

/-! ## Tokens -/

/-- Whether tokens are what becomes of segments that stand after the text `before`. A segment whose matcher emits becomes
one token, with the text of the segment, the category of the matcher and the channel that it emits on, and stands after
all text before it; a segment whose matcher skips becomes nothing. -/
inductive Emits : List Char → List (Segment Matcher) → List Token → Prop
  | nil (before : List Char) : Emits before [] []
  | skip {before text : List Char} {m : Matcher} {segments : List (Segment Matcher)} {ts : List Token}
      (haction : m.action = .skip) (h : Emits (before ++ text) segments ts) : Emits before (⟨m, text⟩ :: segments) ts
  | emit {before text : List Char} {m : Matcher} {channel : Nat} {segments : List (Segment Matcher)} {ts : List Token}
      (haction : m.action = .emit channel) (h : Emits (before ++ text) segments ts) :
      Emits before (⟨m, text⟩ :: segments)
        (⟨String.ofList text, m.category, channel, Position.start.advanceBy before⟩ :: ts)

/-- The tokens of segments are what becomes of them. -/
theorem emits_emitted (before : List Char) (segments : List (Segment Matcher)) :
    Emits before segments (Segment.emitted place before segments) := by
  induction segments generalizing before with
  | nil => exact .nil before
  | cons s rest ih =>
    rw [Segment.emitted, Segment.token?, place]
    cases haction : s.kind.action with
    | skip => exact .skip haction (ih _)
    | emit channel => exact .emit haction (ih _)

theorem emits_iff {before : List Char} {segments : List (Segment Matcher)} {ts : List Token} :
    Emits before segments ts ↔ ts = Segment.emitted place before segments := by
  constructor
  · intro h
    induction h with
    | nil => rfl
    | skip haction _ ih =>
      rw [Segment.emitted, Segment.token?, place, haction, ih]
      rfl
    | emit haction _ ih =>
      rw [Segment.emitted, Segment.token?, place, haction, ih]
      rfl
  · rintro rfl
    exact emits_emitted before segments

/-- A text has tokens exactly when it consists of segments that win at their places. -/
theorem tokens_eq_ok_iff (hascending : Ascending matchers) {source : String} {ts : List Token} :
    tokens matchers source = .ok ts ↔
      ∃ segments, Munched matchers source.toList segments [] ∧ ts = Segment.emitted place [] segments := by
  unfold tokens
  rw [Cut.tokens_eq_ok_iff]
  constructor
  · rintro ⟨hfailure, rfl⟩
    obtain ⟨left, hmunched, -, hleft⟩ := exists_munched_of_cut hascending source.toList
    rw [hfailure] at hleft
    obtain rfl := List.head?_eq_none_iff.mp hleft.symm
    exact ⟨_, hmunched, rfl⟩
  · rintro ⟨segments, hmunched, rfl⟩
    rw [cut_of_munched hascending hmunched (.inl rfl)]
    exact ⟨rfl, rfl⟩

/-- A text has none exactly when there is no winner at the place after some segments; the error names that place and the
character there. -/
theorem tokens_eq_error_iff (hascending : Ascending matchers) {source : String} {e : LexingError} :
    tokens matchers source = .error e ↔
      ∃ segments c rest, Munched matchers source.toList segments (c :: rest) ∧ Fails matchers (c :: rest) ∧
        e = .noViableAlternative (Position.start.advanceBy (Segment.joined segments)) (String.singleton c) := by
  unfold tokens
  rw [Cut.tokens_eq_error_iff]
  constructor
  · rintro ⟨c, hfailure, rfl⟩
    obtain ⟨left, hmunched, hstops, hleft⟩ := exists_munched_of_cut hascending source.toList
    rw [hfailure] at hleft
    cases left with
    | nil => cases hleft
    | cons d rest =>
      obtain rfl := Option.some.inj hleft
      exact ⟨_, c, rest, hmunched, hstops.resolve_left (by simp), rfl⟩
  · rintro ⟨segments, c, rest, hmunched, hfails, rfl⟩
    rw [cut_of_munched hascending hmunched (.inr hfails)]
    exact ⟨c, rfl, rfl⟩

/-- Every token is the match of a matcher that has its category and its channel. -/
theorem exists_matcher_of_tokens (hascending : Ascending matchers) {source : String} {ts : List Token}
    (h : tokens matchers source = .ok ts) {t : Token} (ht : t ∈ ts) :
    ∃ m ∈ matchers, m.place = some (t.category, t.channel) ∧
      ∃ rest, m.matchLength? (t.text.toList ++ rest) = some t.text.toList.length := by
  obtain ⟨segments, hmunched, rfl⟩ := (tokens_eq_ok_iff hascending).mp h
  obtain ⟨before, after, hsplit⟩ := List.append_of_mem ht
  obtain ⟨first, segment, last, rfl, htoken, -, -⟩ := Segment.exists_segment_of_emitted hsplit
  obtain ⟨htext, hplace, -⟩ := Segment.token?_eq_some_iff.mp htoken
  obtain ⟨rest, hwins⟩ := hmunched.exists_wins segment (by simp)
  refine ⟨segment.kind, hwins.mem, hplace, rest, ?_⟩
  rw [htext, String.toList_ofList]
  exact hwins.matches_eq

/-- A matcher puts its tokens on its category. -/
theorem category_of_place {category channel : Nat} (h : m.place = some (category, channel)) : category = m.category := by
  unfold place at h
  split at h
  · exact (congrArg Prod.fst (Option.some.inj h)).symm
  · cases h

/-- Every token has the category of one of the matchers. -/
theorem exists_category_of_tokens (hascending : Ascending matchers) {source : String} {ts : List Token}
    (h : tokens matchers source = .ok ts) {t : Token} (ht : t ∈ ts) : ∃ m ∈ matchers, t.category = m.category := by
  obtain ⟨m, hm, hplace, -⟩ := exists_matcher_of_tokens hascending h ht
  exact ⟨m, hm, category_of_place hplace⟩

end Matcher

end Lexeme
