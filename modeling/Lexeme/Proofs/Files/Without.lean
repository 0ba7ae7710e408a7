import Lexeme.Proofs.Files.Tree
import Mathlib.Data.List.Basic
import Mathlib.Data.List.Infix

/-!
# Trees without some of their nodes

A path leads past some places if it leads to the same place, and to none of them, whether or not the nodes there are
taken away, with all that lies below them (`LeadsPast`). Such a path is looked up and written as before, and still leads
past the places after other writes. Files and devices are on nobody's way: any path leads past them that does not lead to
one of them (`leadsPast_of_place?`).
-/

namespace Lexeme.Files.Tree

/-! ## What is gone -/

/-- Whether a place is gone, or lies below one that is. The root never is. -/
def isGone (gone : Place → Bool) (place : Place) : Bool := place.inits.any fun above => decide (above ≠ []) && gone above

variable {gone : Place → Bool} {place : Place}

theorem isGone_eq_false_iff : isGone gone place = false ↔ ∀ above, above <+: place → above ≠ [] → gone above = false := by
  simp [isGone, List.mem_inits]

theorem isGone_of_above {above : Place} (h : isGone gone place = false) (habove : above <+: place) :
    isGone gone above = false :=
  isGone_eq_false_iff.mpr fun other hother => isGone_eq_false_iff.mp h other (hother.trans habove)

/-- A place in a directory that is not gone is only gone by itself. -/
theorem isGone_of_dropLast (h : isGone gone place.dropLast = false) : isGone gone place = (decide (place ≠ []) && gone place) := by
  cases hplace : decide (place ≠ []) && gone place with
  | true =>
    obtain ⟨hroot, hgone⟩ := Bool.and_eq_true_iff.mp hplace
    refine (Bool.not_eq_false _).mp fun hkept => ?_
    rw [isGone_eq_false_iff.mp hkept place (List.prefix_refl place) (of_decide_eq_true hroot)] at hgone
    cases hgone
  | false =>
    refine isGone_eq_false_iff.mpr fun above habove hroot => ?_
    rcases List.eq_nil_or_concat' place with rfl | ⟨parent, name, rfl⟩
    · exact absurd (List.prefix_nil.mp habove) hroot
    · rw [List.dropLast_concat] at h
      rcases List.prefix_concat_iff.mp habove with rfl | habove
      · simpa using hplace
      · exact isGone_eq_false_iff.mp h above habove hroot

/-- The tree without the nodes at the places that are gone, and without what lies below them. -/
def without (t : Tree) (gone : Place → Bool) : Tree where
  nodes := t.nodes.filter (!isGone gone ·.1)
  here := t.here
  isProper := @IsProper.filter _ t.isProper (!isGone gone ·) fun place hkept =>
    .inr (by rw [isGone_of_above (by simpa using hkept) (List.dropLast_prefix place)]; rfl)

variable {t t' : Tree} {path : String}

theorem node?_without_of_kept (hkept : isGone gone place = false) : (t.without gone).node? place = t.node? place :=
  @nodeAmong?_filter _ _ (!isGone gone ·) (.inr (by simp [hkept]))

/-- What there still is was not gone. -/
theorem isGone_of_node? {node : Node} (h : (t.without gone).node? place = some node) : isGone gone place = false := by
  by_cases hroot : place = []
  · rw [hroot]
    rfl
  · simpa using (List.mem_filter.mp (mem_nodes_of_node? hroot h)).2

theorem put_without (hkept : isGone gone place = false) (haccepts : t.Accepts place) (node : Node) :
    (t.put place node).without gone = (t.without gone).put place node := by
  have haccepts' : (t.without gone).Accepts place := by
    refine ⟨haccepts.isName, ?_, ?_⟩
    · rw [node?_without_of_kept (isGone_of_above hkept (List.dropLast_prefix place))]
      exact haccepts.isIn
    · rw [node?_without_of_kept hkept]
      exact haccepts.not_directory
  refine Tree.ext ?_ ((here_put t place node).trans (here_put (t.without gone) place node).symm)
  rw [nodes_put haccepts']
  show (t.put place node).nodes.filter (!isGone gone ·.1) =
    (t.nodes.filter (!isGone gone ·.1)).filter (·.1 ≠ place) ++ [(place, node)]
  rw [nodes_put haccepts, replace, List.filter_append, List.filter_cons_of_pos (by simp [hkept]), List.filter_nil,
    List.filter_filter, List.filter_filter]
  exact congrArg (· ++ _) (congrArg (List.filter · t.nodes) (funext fun e => Bool.and_comm _ _))

/-- The names that are left in a place are those whose places are not gone. -/
theorem namesAt_without (t : Tree) (hkept : isGone gone place = false) :
    (t.without gone).namesAt place = (t.namesAt place).filter fun name => !gone (place ++ [name]) := by
  unfold namesAt namesAmong without
  rw [List.filterMap_filter, List.filter_filterMap]
  refine congrArg (List.filterMap · t.nodes) (funext fun e => ?_)
  obtain ⟨p, node⟩ := e
  cases hlast : p.getLast? with
  | none => simp [hlast]
  | some name =>
    by_cases hparent : p.dropLast = place
    · obtain rfl : place ++ [name] = p := by
        rw [← hparent]
        exact List.dropLast_append_getLast? name hlast
      have hgone : isGone gone (place ++ [name]) = gone (place ++ [name]) := by
        rw [isGone_of_dropLast (by rwa [List.dropLast_concat])]
        simp
      cases hname : gone (place ++ [name]) <;> simp [hgone, hname, Option.filter]
    · simp [hlast, hparent]

/-! ## Paths that lead past what is gone -/

/-- Whether a path leads to the same place with and without the nodes that are gone, and that place is not gone itself. -/
def LeadsPast (t : Tree) (gone : Place → Bool) (path : String) : Prop :=
  ∃ place, t.place? path = some place ∧ (t.without gone).place? path = some place ∧ gone place = false

namespace LeadsPast

/-- The place does not lie below one that is gone either, for nothing would lead there. -/
theorem exists_kept (h : t.LeadsPast gone path) :
    ∃ place, t.place? path = some place ∧ (t.without gone).place? path = some place ∧ isGone gone place = false := by
  obtain ⟨place, hplace, hplace', hkept⟩ := h
  refine ⟨place, hplace, hplace', ?_⟩
  rw [isGone_of_dropLast (isGone_of_node? (isIn_of_place? hplace').2), hkept, Bool.and_false]

theorem lookup_eq (h : t.LeadsPast gone path) : (t.without gone).lookup path = t.lookup path := by
  obtain ⟨place, hplace, hplace', hkept⟩ := h.exists_kept
  rw [Tree.lookup_eq hplace, Tree.lookup_eq hplace', node?_without_of_kept hkept]

theorem isDirectory_eq (h : t.LeadsPast gone path) : (t.without gone).isDirectory path = t.isDirectory path := by
  rw [isDirectory, isDirectory, h.lookup_eq]

theorem write (h : t.LeadsPast gone path) {content : ByteArray} (hwrite : t.write path content = .ok t') :
    (t.without gone).write path content = .ok (t'.without gone) := by
  obtain ⟨place, hplace, hplace', hkept⟩ := h.exists_kept
  have haccepts (hnode : t.node? place ≠ some .directory) := put_without hkept (accepts_of_place? hplace hnode)
  rw [write_eq hplace] at hwrite
  rw [write_eq hplace', node?_without_of_kept hkept]
  split at hwrite
  · next hnode => rw [← Except.ok.inj hwrite, haccepts (by simp [hnode])]
  · next hnode => rw [← Except.ok.inj hwrite, haccepts (by simp [hnode])]
  · rw [Except.ok.inj hwrite]
  · cases hwrite

theorem of_grows (h : t.LeadsPast gone path) (hgrows : t.Grows t') (hgrows' : (t.without gone).Grows (t'.without gone)) :
    t'.LeadsPast gone path := by
  obtain ⟨place, hplace, hplace', hkept⟩ := h
  exact ⟨place, hgrows.place?_eq hplace, hgrows'.place?_eq hplace', hkept⟩

end LeadsPast

/-! ## Files and devices are on nobody's way -/

/-- Whether nothing is gone but files and devices. -/
def OnlyLeaves (t : Tree) (gone : Place → Bool) : Prop :=
  ∀ place, gone place = true → ∀ node ∈ t.node? place, node ≠ .directory ∧ ∀ target, node ≠ .link target

/-- Directories and links are not gone. -/
theorem OnlyLeaves.gone_eq_false (h : t.OnlyLeaves gone) {node : Node} (hnode : t.node? place = some node)
    (hinner : node = .directory ∨ ∃ target, node = .link target) : gone place = false := by
  cases hgone : gone place with
  | false => rfl
  | true =>
    obtain ⟨hdirectory, hlink⟩ := h place hgone node hnode
    rcases hinner with rfl | ⟨target, rfl⟩
    · exact absurd rfl hdirectory
    · exact absurd rfl (hlink target)

/-- Nor does anything that is gone lead to them. -/
theorem OnlyLeaves.kept (h : t.OnlyLeaves gone) {node : Node} (hnode : t.node? place = some node)
    (hinner : node = .directory ∨ ∃ target, node = .link target) : isGone gone place = false := by
  refine isGone_eq_false_iff.mpr fun above habove _ => ?_
  by_cases hsame : above = place
  · exact h.gone_eq_false (hsame ▸ hnode) hinner
  · exact h.gone_eq_false (node?_of_above hnode habove hsame) (.inl rfl)

/-- What lies in a directory is only gone by itself. -/
theorem OnlyLeaves.isGone_eq_false (h : t.OnlyLeaves gone) (hparent : t.node? place.dropLast = some .directory)
    (hkept : gone place = false) : isGone gone place = false := by
  rw [isGone_of_dropLast (h.kept hparent (.inl rfl)), hkept, Bool.and_false]

/-- What leads to a place that is kept leads there without the files and devices that are gone. -/
theorem OnlyLeaves.walk_eq (h : t.OnlyLeaves gone) {links : Nat} {start : Place} {todo : List String}
    (hwalk : t.walk links start todo = .ok (t.atPlace place)) (hkept : gone place = false) :
    (t.without gone).walk links start todo = .ok ((t.without gone).atPlace place) := by
  fun_induction walk t links start todo with
  | case1 links start =>
    cases hnode : t.node? start with
    | none => rw [hnode] at hwalk; cases hwalk
    | some node =>
      rw [hnode] at hwalk
      obtain rfl : start = place := (congrArg Location.place (Except.ok.inj hwalk)).trans (place_atPlace t place)
      rw [walk, atPlace, node?_without_of_kept (h.isGone_eq_false (node?_dropLast hnode) hkept), hnode]
      rfl
  | case2 links start name rest hdirectory hdot ih =>
    rw [walk, node?_without_of_kept (h.kept hdirectory (.inl rfl)), hdirectory]
    simp only [if_pos hdot, ih hwalk]
  | case3 links start rest hdirectory hdot ih =>
    rw [walk, node?_without_of_kept (h.kept hdirectory (.inl rfl)), hdirectory]
    simp only [if_neg hdot, if_pos, ih hwalk]
  | case4 => cases hwalk
  | case5 => cases hwalk
  | case6 start name rest hdirectory hdot hparent hshort link hlink links ih =>
    rw [walk, node?_without_of_kept (h.kept hdirectory (.inl rfl)), hdirectory]
    simp only [if_neg hdot, if_neg hparent, if_neg hshort, node?_without_of_kept (h.kept hlink (.inr ⟨_, rfl⟩)), hlink]
    exact ih hwalk
  | case7 links start name rest hdirectory hdot hparent hshort node hnot hnode ih =>
    -- a file or a device can only be the last on the way, and there it is kept
    have hnext : gone (start ++ [name]) = false := by
      cases hgone : gone (start ++ [name]) with
      | false => rfl
      | true =>
        obtain ⟨hne, -⟩ := h _ hgone node hnode
        cases rest with
        | nil =>
          rw [walk, hnode] at hwalk
          obtain rfl : start ++ [name] = place := (congrArg Location.place (Except.ok.inj hwalk)).trans (place_atPlace t place)
          rw [hgone] at hkept
          cases hkept
        | cons next rest =>
          rw [walk, hnode] at hwalk
          cases node with
          | directory => exact absurd rfl hne
          | _ => cases hwalk
    rw [walk, node?_without_of_kept (h.kept hdirectory (.inl rfl)), hdirectory]
    have hnext := h.isGone_eq_false (node?_dropLast hnode) hnext
    simp only [if_neg hdot, if_neg hparent, if_neg hshort, node?_without_of_kept hnext, hnode]
    cases node with
    | link target => exact absurd rfl (hnot target)
    | _ => exact ih hwalk
  | case8 links start name hdirectory hdot hparent hshort hnone =>
    obtain rfl : start ++ [name] = place := (congrArg Location.place (Except.ok.inj hwalk)).trans (place_atPlace t place)
    have hkept := h.isGone_eq_false (by rwa [List.dropLast_concat]) hkept
    rw [walk, node?_without_of_kept (h.kept hdirectory (.inl rfl)), hdirectory]
    simp only [if_neg hdot, if_neg hparent, if_neg hshort, node?_without_of_kept hkept, hnone, if_pos]
    rw [atPlace, node?_without_of_kept hkept, hnone]
    rfl
  | case9 => cases hwalk
  | case10 => cases hwalk

theorem leadsPast_of_place? (h : t.OnlyLeaves gone) (hplace : t.place? path = some place) (hkept : gone place = false) :
    t.LeadsPast gone path := by
  refine ⟨place, hplace, place?_eq_some_iff.mpr ?_, hkept⟩
  have hlocate := place?_eq_some_iff.mp hplace
  have hbase : (t.without gone).base path = t.base path := rfl
  unfold locate at hlocate ⊢
  rw [hbase]
  split_ifs at hlocate ⊢
  exact h.walk_eq hlocate hkept

end Lexeme.Files.Tree
