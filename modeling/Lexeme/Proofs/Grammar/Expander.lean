import Lexeme.Grammar.Expand

/-!
# Work with a memory

Work of `Expander` that succeeds can be taken apart: the parts succeed one after the other, each with the memory that
the one before leaves. A property of the memory that each part keeps, whether it succeeds or not, is kept by the whole
(`Keeps`).
-/

namespace Lexeme.Grammar

variable {α β : Type} {found after : Found}

/-- The second piece of work is done with the memory that the first leaves, and not at all if the first fails. -/
theorem bind_run (x : Expander α) (f : α → Expander β) (found : Found) :
    (x >>= f).run found =
      match (x.run found : Except Error α × Found) with
      | (.ok a, between) => (f a).run between
      | (.error e, between) => (.error e, between) := by
  change ExceptT.bindCont f (x.run found).1 (x.run found).2 = _
  rcases (x.run found : Except Error α × Found) with ⟨e | a, between⟩
  · rfl
  · rfl

/-- Two pieces of work succeed exactly when the first does, and then the second with the memory that the first leaves. -/
theorem bind_run_eq_ok_iff {x : Expander α} {f : α → Expander β} {b : β} :
    (x >>= f).run found = (.ok b, after) ↔
      ∃ a between, x.run found = (.ok a, between) ∧ (f a).run between = (.ok b, after) := by
  rw [bind_run]
  constructor
  · intro h
    rcases hx : (x.run found : Except Error α × Found) with ⟨e | a, between⟩
    · rw [hx] at h
      cases h
    · rw [hx] at h
      exact ⟨a, between, rfl, h⟩
  · rintro ⟨a, between, hx, hf⟩
    rw [hx]
    exact hf

@[simp] theorem pure_run_eq_ok_iff {a b : α} :
    (pure a : Expander α).run found = (.ok b, after) ↔ a = b ∧ found = after := by
  change ((Except.ok a : Except Error α), found) = (.ok b, after) ↔ _
  simp

/-- Work on all members of a list succeeds exactly when it succeeds on one after the other. -/
inductive RunAll (f : α → Expander β) : List α → Found → List β → Found → Prop
  | nil (found : Found) : RunAll f [] found [] found
  | cons {a : α} {as : List α} {b : β} {bs : List β} {found between after : Found}
      (hhead : (f a).run found = (.ok b, between)) (htail : RunAll f as between bs after) :
      RunAll f (a :: as) found (b :: bs) after

theorem runAll_of_mapM {f : α → Expander β} : ∀ {as : List α} {bs : List β} {found after : Found},
    (as.mapM f).run found = (.ok bs, after) → RunAll f as found bs after
  | [], bs, found, after, h => by
    rw [List.mapM_nil, pure_run_eq_ok_iff] at h
    obtain ⟨rfl, rfl⟩ := h
    exact .nil found
  | a :: as, bs, found, after, h => by
    rw [List.mapM_cons, bind_run_eq_ok_iff] at h
    obtain ⟨b, between, hhead, h⟩ := h
    obtain ⟨rest, last, htail, h⟩ := bind_run_eq_ok_iff.mp h
    rw [pure_run_eq_ok_iff] at h
    obtain ⟨rfl, rfl⟩ := h
    exact .cons hhead (runAll_of_mapM htail)

/-! ## Properties of the memory -/

/-- Whether work keeps the property `P` of the memory, also if it fails, and gives only results with the property `Q`. -/
def Keeps (P : Found → Prop) (x : Expander α) (Q : α → Prop) : Prop :=
  ∀ found, P found → P (x.run found).2 ∧ ∀ a, (x.run found).1 = .ok a → Q a

variable {P : Found → Prop} {Q : α → Prop} {R : β → Prop}

theorem keeps_pure {a : α} (ha : Q a) : Keeps P (pure a) Q := by
  intro found hfound
  refine ⟨hfound, ?_⟩
  intro b hb
  cases hb
  exact ha

theorem keeps_throw (e : Error) : Keeps P (throw e : Expander α) Q := by
  intro found hfound
  refine ⟨hfound, ?_⟩
  intro b hb
  cases hb

/-- Work after work keeps what both keep. -/
theorem Keeps.bind {x : Expander α} {f : α → Expander β} (hx : Keeps P x Q) (hf : ∀ a, Q a → Keeps P (f a) R) :
    Keeps P (x >>= f) R := by
  intro found hfound
  obtain ⟨hbetween, hresult⟩ := hx found hfound
  rw [bind_run]
  rcases hrun : (x.run found : Except Error α × Found) with ⟨e | a, between⟩
  · rw [hrun] at hbetween
    refine ⟨hbetween, ?_⟩
    intro b hb
    cases hb
  · rw [hrun] at hbetween
    exact hf a (hresult a (congrArg Prod.fst hrun)) between hbetween

theorem keeps_found? {name : String} {Q : Option Pattern → Prop} (h : ∀ found, P found → Q (found.lookup name)) :
    Keeps P (found? name) Q := by
  intro found hfound
  refine ⟨hfound, ?_⟩
  intro b hb
  cases hb
  exact h found hfound

theorem keeps_keep {name : String} {pattern : Pattern} (h : ∀ found, P found → P ((name, pattern) :: found)) :
    Keeps P (keep name pattern) fun _ => True :=
  fun found hfound => ⟨h found hfound, fun _ _ => trivial⟩

/-- Work on a list keeps what the work on each member keeps, and gives a result for each. -/
theorem RunAll.exists_of_mem {f : α → Expander β} {R : α → β → Prop} (hf : ∀ a, Keeps P (f a) (R a)) {as : List α}
    {bs : List β} (h : RunAll f as found bs after) (hfound : P found) : ∀ a ∈ as, ∃ b ∈ bs, R a b := by
  induction h with
  | nil => exact fun a ha => by cases ha
  | @cons a as b bs found between after hhead _ ih =>
    obtain ⟨hbetween, hresult⟩ := hf a found hfound
    rw [hhead] at hbetween
    intro c hc
    rcases List.mem_cons.mp hc with rfl | hc
    · exact ⟨b, List.mem_cons_self, hresult b (congrArg Prod.fst hhead)⟩
    · obtain ⟨d, hd, hR⟩ := ih hbetween c hc
      exact ⟨d, List.mem_cons_of_mem _ hd, hR⟩

end Lexeme.Grammar
