import Lexeme.Pattern.Basic

/-!
# What matches, and in which order

A pattern matches several beginnings of a text. A `Matching` gives what is left of the text after each of them, in the
order in which they are tried: the first alternative before the second, one more copy before none if a repeat is greedy
and after none if it is lazy. The complement of a set has all characters that the set has not, as the notation of regular
expressions says.

`Finds` says which texts a matching finds, whatever the order. For a repeat these are the texts that consist of as many
copies as its quantifier allows (`finds_repeatRests`).
-/

namespace Lexeme

/-- What is left of a text after each match at its beginning, in the order in which matches are tried. -/
abbrev Matching := List Char → List (List Char)

/-- Matches one text. -/
def textRests (text : List Char) : Matching := fun s =>
  if text <+: s then [s.drop text.length] else []

/-- Matches one character that `p` accepts. -/
def oneRests (p : Char → Bool) : Matching
  | [] => []
  | c :: rest => if p c then [rest] else []

/-- Matches any number of copies. A copy of no characters is the last one. -/
def manyRests (greedy : Bool) (body : Matching) (s : List Char) : List (List Char) :=
  let more := (body s).flatMap fun rest =>
    if _ : rest.length < s.length then manyRests greedy body rest else [rest]
  if greedy then more ++ [s] else s :: more
termination_by s.length

/-- Matches as many copies as a quantifier allows. -/
def repeatRests (quantifier : Quantifier) (greedy : Bool) (body : Matching) : Matching := fun s =>
  match quantifier with
  | .optional => if greedy then body s ++ [s] else s :: body s
  | .zeroOrMore => manyRests greedy body s
  | .oneOrMore => (body s).flatMap (manyRests greedy body)

namespace Pattern

/-- What is left of a text after each match of a pattern. -/
def rests : Pattern → Matching
  | literal text => textRests text
  | set negated items => oneRests fun c => inItems items c != negated
  | any => oneRests fun _ => true
  | seq p q => fun s => (p.rests s).flatMap q.rests
  | alt p q => fun s => p.rests s ++ q.rests s
  | group p => p.rests
  | repeated quantifier greedy p => repeatRests quantifier greedy p.rests

/-- Matches patterns one after the other. -/
def allRests : List Pattern → Matching
  | [] => fun s => [s]
  | p :: ps => fun s => (p.rests s).flatMap (allRests ps)

@[simp] theorem rests_literal_nil (s : List Char) : (literal []).rests s = [s] := by
  simp [rests, textRests]

theorem allRests_append (ps qs : List Pattern) (s : List Char) :
    allRests (ps ++ qs) s = (allRests ps s).flatMap (allRests qs) := by
  induction ps generalizing s with
  | nil => simp [allRests]
  | cons p ps ih => simp only [List.cons_append, allRests, List.flatMap_assoc, funext ih]

/-- A sequence matches its members one after the other. -/
theorem rests_concat : ∀ (ps : List Pattern) (s : List Char), (concat ps).rests s = allRests ps s
  | [], s => by simp [concat, allRests]
  | [p], s => by simp [concat, allRests]
  | p :: q :: ps, s => by
    rw [concat, rests, funext (rests_concat (q :: ps))]
    · rfl
    · simp

/-- A choice tries its members in turn. -/
theorem rests_choice : ∀ {ps : List Pattern}, ps ≠ [] → ∀ s : List Char,
    (choice ps).rests s = ps.flatMap fun p => p.rests s
  | [], h, _ => absurd rfl h
  | [p], _, s => by simp [choice]
  | p :: q :: ps, _, s => by
    rw [choice]
    · change p.rests s ++ (choice (q :: ps)).rests s = _
      rw [rests_choice (List.cons_ne_nil q ps)]
      rfl
    · exact List.cons_ne_nil q ps

/-- A text is matched character by character. -/
theorem allRests_map_literal (text s : List Char) : allRests (text.map fun c => literal [c]) s = textRests text s := by
  induction text generalizing s with
  | nil => simp [allRests, textRests]
  | cons c text ih =>
    cases s with
    | nil => simp [allRests, rests, textRests]
    | cons d s =>
      by_cases hcd : c = d
      · subst hcd
        simp [allRests, rests, textRests, ih]
      · simp [allRests, rests, textRests, hcd]

end Pattern

/-! ## The texts that are found -/

/-- Whether a matching finds, at the beginning of every text, exactly the texts that `L` holds of. -/
def Finds (m : Matching) (L : List Char → Prop) : Prop := ∀ s rest, rest ∈ m s ↔ ∃ text, s = text ++ rest ∧ L text

section Finds

variable {m m' : Matching} {L L' : List Char → Prop}

theorem finds_textRests (text : List Char) : Finds (textRests text) (· = text) := by
  intro s rest
  unfold textRests
  split
  · next hprefix =>
    obtain ⟨tail, rfl⟩ := hprefix
    rw [List.drop_left, List.mem_singleton]
    constructor
    · rintro rfl
      exact ⟨text, rfl, rfl⟩
    · rintro ⟨found, heq, rfl⟩
      exact (List.append_cancel_left heq).symm
  · next hprefix =>
    constructor
    · intro h
      cases h
    · rintro ⟨found, rfl, rfl⟩
      exact absurd (List.prefix_append found rest) hprefix

theorem finds_oneRests (p : Char → Bool) : Finds (oneRests p) fun text => ∃ c, text = [c] ∧ p c = true := by
  intro s rest
  cases s with
  | nil =>
    constructor
    · intro h
      cases h
    · rintro ⟨text, hs, c, rfl, -⟩
      cases hs
  | cons c tail =>
    change rest ∈ (if p c then [tail] else []) ↔ _
    constructor
    · intro h
      split at h
      · next hc =>
        obtain rfl := List.mem_singleton.mp h
        exact ⟨[c], rfl, c, rfl, hc⟩
      · cases h
    · rintro ⟨text, hs, d, rfl, hd⟩
      obtain ⟨rfl, rfl⟩ := List.cons.inj hs
      rw [if_pos hd]
      exact List.mem_singleton.mpr rfl

theorem finds_empty : Finds (fun _ => []) fun _ => False := by
  intro s rest
  constructor
  · intro h
    cases h
  · rintro ⟨text, -, h⟩
    exact h.elim

theorem finds_nil : Finds (fun s => [s]) (· = []) := by
  intro s rest
  constructor
  · intro h
    exact ⟨[], (List.mem_singleton.mp h).symm, rfl⟩
  · rintro ⟨text, rfl, rfl⟩
    exact List.mem_singleton.mpr rfl

/-- One matching after the other finds the texts that consist of one of each. -/
theorem Finds.flatMap (h : Finds m L) (h' : Finds m' L') :
    Finds (fun s => (m s).flatMap m') fun text => ∃ u v, text = u ++ v ∧ L u ∧ L' v := by
  intro s rest
  rw [List.mem_flatMap]
  constructor
  · rintro ⟨between, hbetween, hrest⟩
    obtain ⟨u, rfl, hu⟩ := (h s between).mp hbetween
    obtain ⟨v, rfl, hv⟩ := (h' between rest).mp hrest
    exact ⟨u ++ v, (List.append_assoc u v rest).symm, u, v, rfl, hu, hv⟩
  · rintro ⟨text, rfl, u, v, rfl, hu, hv⟩
    exact ⟨v ++ rest, (h _ _).mpr ⟨u, List.append_assoc u v rest, hu⟩, (h' _ _).mpr ⟨v, rfl, hv⟩⟩

/-- One matching or the other finds the texts of both. -/
theorem Finds.append (h : Finds m L) (h' : Finds m' L') : Finds (fun s => m s ++ m' s) fun text => L text ∨ L' text := by
  intro s rest
  rw [List.mem_append, h s rest, h' s rest]
  constructor
  · rintro (⟨text, hs, htext⟩ | ⟨text, hs, htext⟩)
    · exact ⟨text, hs, .inl htext⟩
    · exact ⟨text, hs, .inr htext⟩
  · rintro ⟨text, hs, htext | htext⟩
    · exact .inl ⟨text, hs, htext⟩
    · exact .inr ⟨text, hs, htext⟩

theorem finds_iff (h : Finds m L) (hiff : ∀ text, L text ↔ L' text) : Finds m L' := by
  intro s rest
  rw [h s rest]
  simp only [hiff]

/-! ### Copies -/

/-- Whether a quantifier allows a number of copies. -/
def Quantifier.Allows : Quantifier → Nat → Prop
  | .optional, n => n ≤ 1
  | .zeroOrMore, _ => True
  | .oneOrMore, n => 1 ≤ n

/-- Whether a text consists of as many texts of `L` as a quantifier allows. -/
def Copies (quantifier : Quantifier) (L : List Char → Prop) (text : List Char) : Prop :=
  ∃ copies : List (List Char), text = copies.flatten ∧ quantifier.Allows copies.length ∧ ∀ copy ∈ copies, L copy

theorem Copies.nil {quantifier : Quantifier} (h : quantifier.Allows 0) : Copies quantifier L [] :=
  ⟨[], rfl, h, fun _ hcopy => by cases hcopy⟩

theorem Copies.cons {u v : List Char} (hu : L u) (hv : Copies .zeroOrMore L v) : Copies .zeroOrMore L (u ++ v) := by
  obtain ⟨copies, rfl, -, hcopies⟩ := hv
  exact ⟨u :: copies, rfl, trivial, List.forall_mem_cons.mpr ⟨hu, hcopies⟩⟩

/-- Trying one more copy, or none, in the order that greed says. -/
theorem mem_manyRests_iff {greedy : Bool} {s rest : List Char} :
    rest ∈ manyRests greedy m s ↔
      rest = s ∨ ∃ between ∈ m s, rest ∈ if between.length < s.length then manyRests greedy m between else [between] := by
  rw [manyRests]
  cases greedy with
  | true => simp [or_comm]
  | false => simp

/-- Any number of copies can be found, since a copy of no characters can be left out. -/
theorem finds_manyRests (h : Finds m L) (greedy : Bool) : Finds (manyRests greedy m) (Copies .zeroOrMore L) := by
  intro s
  induction hlength : s.length using Nat.strongRecOn generalizing s with
  | _ length ih =>
    intro rest
    rw [mem_manyRests_iff]
    constructor
    · rintro (rfl | ⟨between, hbetween, hrest⟩)
      · exact ⟨[], rfl, .nil trivial⟩
      · obtain ⟨u, rfl, hu⟩ := (h s between).mp hbetween
        split at hrest
        · next hshorter =>
          obtain ⟨v, rfl, hv⟩ := (ih between.length (hlength ▸ hshorter) between rfl rest).mp hrest
          exact ⟨u ++ v, (List.append_assoc u v rest).symm, hv.cons hu⟩
        · obtain rfl := List.mem_singleton.mp hrest
          exact ⟨u, rfl, [u], by simp, trivial, by simpa using hu⟩
    · rintro ⟨text, rfl, copies, rfl, -, hcopies⟩
      -- the first copy that has characters leaves a shorter text
      induction copies with
      | nil => exact .inl rfl
      | cons u copies ihcopies =>
        cases u with
        | nil => exact ihcopies hlength fun copy hcopy => hcopies copy (List.mem_cons_of_mem _ hcopy)
        | cons c u =>
          have hbetween : copies.flatten ++ rest ∈ m (((c :: u) :: copies).flatten ++ rest) :=
            (h _ _).mpr ⟨c :: u, List.append_assoc _ _ _, hcopies _ List.mem_cons_self⟩
          have hshorter : (copies.flatten ++ rest).length < (((c :: u) :: copies).flatten ++ rest).length := by
            simp only [List.flatten_cons, List.cons_append, List.length_cons, List.length_append]
            omega
          refine .inr ⟨copies.flatten ++ rest, hbetween, ?_⟩
          rw [if_pos hshorter]
          refine (ih _ (hlength ▸ hshorter) _ rfl rest).mpr ⟨copies.flatten, rfl, copies, rfl, trivial, ?_⟩
          exact fun copy hcopy => hcopies copy (List.mem_cons_of_mem _ hcopy)

/-- A repeat finds the texts that consist of as many copies as its quantifier allows. -/
theorem finds_repeatRests (h : Finds m L) (quantifier : Quantifier) (greedy : Bool) :
    Finds (repeatRests quantifier greedy m) (Copies quantifier L) := by
  cases quantifier with
  | optional =>
    intro s rest
    have hmem : rest ∈ repeatRests .optional greedy m s ↔ rest = s ∨ rest ∈ m s := by
      cases greedy with
      | true => simp [repeatRests, or_comm]
      | false => simp [repeatRests]
    rw [hmem, h s rest]
    constructor
    · rintro (rfl | ⟨text, rfl, htext⟩)
      · exact ⟨[], rfl, .nil (Nat.zero_le 1)⟩
      · exact ⟨text, rfl, [text], by simp, Nat.le_refl 1, by simpa using htext⟩
    · rintro ⟨text, rfl, copies, rfl, hallows, hcopies⟩
      match copies, hallows with
      | [], _ => exact .inl rfl
      | [text], _ => exact .inr ⟨text, by simp, hcopies text List.mem_cons_self⟩
  | zeroOrMore => exact finds_manyRests h greedy
  | oneOrMore =>
    refine finds_iff (h.flatMap (finds_manyRests h greedy)) fun text => ?_
    constructor
    · rintro ⟨u, v, rfl, hu, copies, rfl, -, hcopies⟩
      exact ⟨u :: copies, rfl, Nat.succ_le_succ (Nat.zero_le _), List.forall_mem_cons.mpr ⟨hu, hcopies⟩⟩
    · rintro ⟨copies, rfl, hallows, hcopies⟩
      match copies, hallows with
      | u :: copies, _ =>
        exact ⟨u, copies.flatten, rfl, hcopies u List.mem_cons_self, copies, rfl, trivial,
          fun copy hcopy => hcopies copy (List.mem_cons_of_mem _ hcopy)⟩

end Finds

end Lexeme
