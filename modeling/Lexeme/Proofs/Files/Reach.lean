import Lexeme.Proofs.Files.Without

/-!
# How far paths get

A path gets to a last place even if it leads nowhere: to the place where it breaks off (`reach`). When files are put in
a tree, every path gets as far as before (`Grows.reach_eq`), and it leads to what it led to before, or fails as it
failed before, unless there is now something else at that place (`Grows.lookup_eq`). So two paths that meet in nothing
but a directory are `Apart`: what is written to one of them is not seen by the other (`Apart.lookup_eq`).
-/

namespace Lexeme.Files.Tree

variable {t t' : Tree} {place start : Place} {links : Nat} {todo : List String} {path other : String}

/-- The last place that the parts `todo` of a path get to from a place, whether or not they lead anywhere. -/
def reach (t : Tree) (links : Nat) (place : Place) (todo : List String) : Place :=
  match todo with
  | [] => place
  | name :: rest =>
    match t.node? place with
    | some .directory =>
      if name = "" ∨ name = "." then reach t links place rest
      else if name = ".." then reach t links place.dropLast rest
      else if nameLimit < name.utf8ByteSize then place ++ [name]
      else
        match t.node? (place ++ [name]) with
        | some (.link target) =>
          match links with
          | 0 => place ++ [name]
          | links + 1 => reach t links (if target.startsWith "/" then [] else place) (parts target ++ rest)
        | some _ => reach t links (place ++ [name]) rest
        | none => place ++ [name]
    | _ => place
termination_by (links, todo.length)

/-- The last place that a path gets to, unless nobody would follow it at all. -/
def reach? (t : Tree) (path : String) : Option Place :=
  if path.contains '\x00' ∨ path.isEmpty ∨ pathLimit ≤ path.utf8ByteSize then none
  else some (t.reach linkLimit (t.base path) (parts path))

theorem reach_of_not_directory {name : String} (h : t.node? start ≠ some .directory) :
    t.reach links start (name :: todo) = start := by
  rw [reach]
  split
  next hdirectory => exact absurd hdirectory h
  · rfl

/-- Where parts of a path lead to a place, they get there. -/
theorem reach_of_walk {location : Location} (h : t.walk links start todo = .ok location) :
    t.reach links start todo = location.place := by
  fun_induction walk t links start todo with
  | case1 links start =>
    rw [reach]
    cases hnode : t.node? start with
    | none => rw [hnode] at h; cases h
    | some node =>
      rw [hnode] at h
      rw [← Except.ok.inj h]
      rfl
  | case2 links start name rest hdirectory hdot ih =>
    rw [reach, hdirectory]
    simp only [if_pos hdot, ih h]
  | case3 links start rest hdirectory hdot ih =>
    rw [reach, hdirectory]
    simp only [if_neg hdot, if_pos, ih h]
  | case4 => cases h
  | case5 => cases h
  | case6 start name rest hdirectory hdot hparent hshort link hlink links ih =>
    rw [reach, hdirectory]
    simp only [if_neg hdot, if_neg hparent, if_neg hshort, hlink]
    exact ih h
  | case7 links start name rest hdirectory hdot hparent hshort node hnot hnode ih =>
    rw [reach, hdirectory]
    simp only [if_neg hdot, if_neg hparent, if_neg hshort, hnode]
    cases node with
    | link target => exact absurd rfl (hnot target)
    | _ => exact ih h
  | case8 links start name hdirectory hdot hparent hshort hnone =>
    rw [reach, hdirectory]
    simp only [if_neg hdot, if_neg hparent, if_neg hshort, hnone]
    rw [← Except.ok.inj h]
    rfl
  | case9 => cases h
  | case10 => cases h

theorem reach?_of_place? (h : t.place? path = some place) : t.reach? path = some place := by
  have hlocate := place?_eq_some_iff.mp h
  unfold locate at hlocate
  split_ifs at hlocate with hzero hempty hlong
  rw [reach?, if_neg (by simp [hzero, hempty, hlong]), reach_of_walk hlocate, place_atPlace]

/-! ## Ways through directories -/

/-- What leads to a directory is the first part of any way from there. -/
theorem exists_reach_append (h : t.walk links start todo = .ok (.found place .directory)) :
    ∃ links', ∀ more, t.reach links start (todo ++ more) = t.reach links' place more := by
  fun_induction walk t links start todo with
  | case1 links start =>
    refine ⟨links, fun more => ?_⟩
    cases hnode : t.node? start with
    | none => rw [hnode] at h; cases h
    | some node =>
      rw [hnode] at h
      cases h
      rfl
  | case2 links start name rest hdirectory hdot ih =>
    obtain ⟨links', hreach⟩ := ih h
    refine ⟨links', fun more => ?_⟩
    rw [List.cons_append, reach, hdirectory, ← hreach]
    simp only [if_pos hdot]
  | case3 links start rest hdirectory hdot ih =>
    obtain ⟨links', hreach⟩ := ih h
    refine ⟨links', fun more => ?_⟩
    rw [List.cons_append, reach, hdirectory, ← hreach]
    simp only [if_neg hdot, if_pos]
  | case4 => cases h
  | case5 => cases h
  | case6 start name rest hdirectory hdot hparent hshort link hlink links ih =>
    obtain ⟨links', hreach⟩ := ih h
    refine ⟨links', fun more => ?_⟩
    rw [List.cons_append, reach, hdirectory]
    simp only [if_neg hdot, if_neg hparent, if_neg hshort, hlink, ← List.append_assoc]
    exact hreach more
  | case7 links start name rest hdirectory hdot hparent hshort node hnot hnode ih =>
    obtain ⟨links', hreach⟩ := ih h
    refine ⟨links', fun more => ?_⟩
    rw [List.cons_append, reach, hdirectory, ← hreach]
    simp only [if_neg hdot, if_neg hparent, if_neg hshort, hnode]
  | case8 => cases h
  | case9 => cases h
  | case10 => cases h

/-- An empty part on the way counts for nothing. -/
theorem reach_append_empty_cons {more : List String} (hmore : more ≠ []) :
    t.reach links start (todo ++ "" :: more) = t.reach links start (todo ++ more) := by
  fun_induction reach t links start todo with
  | case1 links start =>
    rw [List.nil_append, List.nil_append, reach]
    obtain ⟨name, rest, rfl⟩ := List.exists_cons_of_ne_nil hmore
    split
    next => rw [if_pos (.inl rfl)]
    next hnot => rw [reach_of_not_directory hnot]
  | case2 links start name rest hdirectory hdot ih =>
    rw [List.cons_append, List.cons_append, reach, reach, hdirectory]
    simp only [if_pos hdot, ih]
  | case3 links start rest hdirectory hdot ih =>
    rw [List.cons_append, List.cons_append, reach, reach, hdirectory]
    simp only [if_neg hdot, if_pos, ih]
  | case4 links start name rest hdirectory hdot hparent hlong =>
    rw [List.cons_append, List.cons_append, reach, reach, hdirectory]
    simp only [if_neg hdot, if_neg hparent, if_pos hlong]
  | case5 start name rest hdirectory hdot hparent hshort link hlink =>
    rw [List.cons_append, List.cons_append, reach, reach, hdirectory]
    simp only [if_neg hdot, if_neg hparent, if_neg hshort, hlink]
  | case6 start name rest hdirectory hdot hparent hshort link hlink links ih =>
    rw [List.cons_append, List.cons_append, reach, reach, hdirectory]
    simp only [if_neg hdot, if_neg hparent, if_neg hshort, hlink, ← List.append_assoc]
    exact ih
  | case7 links start name rest hdirectory hdot hparent hshort node hnot hnode ih =>
    rw [List.cons_append, List.cons_append, reach, reach, hdirectory]
    simp only [if_neg hdot, if_neg hparent, if_neg hshort, hnode, ih]
  | case8 links start name rest hdirectory hdot hparent hshort hnone =>
    rw [List.cons_append, List.cons_append, reach, reach, hdirectory]
    simp only [if_neg hdot, if_neg hparent, if_neg hshort, hnone]
  | case9 links start name rest hnot =>
    rw [List.cons_append, List.cons_append, reach_of_not_directory hnot, reach_of_not_directory hnot]

/-! ## Trees that grow -/

namespace Grows

/-- No directory comes where there was none. -/
theorem node?_ne_directory (h : t.Grows t') (hnode : t.node? place ≠ some .directory) : t'.node? place ≠ some .directory := by
  rcases h.node?_eq place with heq | ⟨-, content, hcontent⟩
  · rwa [heq]
  · simp [hcontent]

/-- What breaks off at a place breaks off there still, even if a file has come there. -/
theorem reach_eq (h : t.Grows t') (links : Nat) (start : Place) (todo : List String) :
    t'.reach links start todo = t.reach links start todo := by
  fun_induction reach t links start todo with
  | case1 links start => rw [reach]
  | case2 links start name rest hdirectory hdot ih =>
    rw [reach, h.node?_directory hdirectory]
    simp only [if_pos hdot, ih]
  | case3 links start rest hdirectory hdot ih =>
    rw [reach, h.node?_directory hdirectory]
    simp only [if_neg hdot, if_pos, ih]
  | case4 links start name rest hdirectory hdot hparent hlong =>
    rw [reach, h.node?_directory hdirectory]
    simp only [if_neg hdot, if_neg hparent, if_pos hlong]
  | case5 start name rest hdirectory hdot hparent hshort link hlink =>
    rw [reach, h.node?_directory hdirectory]
    simp only [if_neg hdot, if_neg hparent, if_neg hshort, h.node?_link hlink]
  | case6 start name rest hdirectory hdot hparent hshort link hlink links ih =>
    rw [reach, h.node?_directory hdirectory]
    simp only [if_neg hdot, if_neg hparent, if_neg hshort, h.node?_link hlink]
    exact ih
  | case7 links start name rest hdirectory hdot hparent hshort node hnot hnode ih =>
    obtain ⟨node', hnode', hnot'⟩ := h.node?_ne_link hnode fun target heq => hnot target heq
    rw [reach, h.node?_directory hdirectory]
    simp only [if_neg hdot, if_neg hparent, if_neg hshort, hnode']
    cases node' with
    | link target => exact absurd rfl (hnot' target)
    | _ => exact ih
  | case8 links start name rest hdirectory hdot hparent hshort hnone =>
    rw [reach, h.node?_directory hdirectory]
    simp only [if_neg hdot, if_neg hparent, if_neg hshort]
    rcases h.node?_eq (start ++ [name]) with heq | ⟨-, content, hcontent⟩
    · rw [heq, hnone]
    · simp only [hcontent]
      cases rest with
      | nil => rw [reach]
      | cons => rw [reach_of_not_directory (by simp [hcontent])]
  | case9 links start name rest hnot =>
    rw [reach_of_not_directory (h.node?_ne_directory hnot)]

/-- If nothing has changed where the parts of a path break off, they lead to the same, or fail in the same way. -/
theorem walk_eq_of_reach (h : t.Grows t') (hsame : t'.node? (t.reach links start todo) = t.node? (t.reach links start todo)) :
    t'.walk links start todo = t.walk links start todo := by
  fun_induction reach t links start todo with
  | case1 links start => rw [walk, walk, hsame]
  | case2 links start name rest hdirectory hdot ih =>
    rw [walk, walk, h.node?_directory hdirectory, hdirectory]
    simp only [if_pos hdot, ih hsame]
  | case3 links start rest hdirectory hdot ih =>
    rw [walk, walk, h.node?_directory hdirectory, hdirectory]
    simp only [if_neg hdot, if_pos, ih hsame]
  | case4 links start name rest hdirectory hdot hparent hlong =>
    rw [walk, walk, h.node?_directory hdirectory, hdirectory]
    simp only [if_neg hdot, if_neg hparent, if_pos hlong]
  | case5 start name rest hdirectory hdot hparent hshort link hlink =>
    rw [walk, walk, h.node?_directory hdirectory, hdirectory]
    simp only [if_neg hdot, if_neg hparent, if_neg hshort, h.node?_link hlink, hlink]
  | case6 start name rest hdirectory hdot hparent hshort link hlink links ih =>
    rw [walk, walk, h.node?_directory hdirectory, hdirectory]
    simp only [if_neg hdot, if_neg hparent, if_neg hshort, h.node?_link hlink, hlink]
    exact ih hsame
  | case7 links start name rest hdirectory hdot hparent hshort node hnot hnode ih =>
    obtain ⟨node', hnode', hnot'⟩ := h.node?_ne_link hnode fun target heq => hnot target heq
    rw [walk, walk, h.node?_directory hdirectory, hdirectory]
    simp only [if_neg hdot, if_neg hparent, if_neg hshort, hnode', hnode]
    cases node with
    | link target => exact absurd rfl (hnot target)
    | _ =>
      cases node' with
      | link target => exact absurd rfl (hnot' target)
      | _ => exact ih hsame
  | case8 links start name rest hdirectory hdot hparent hshort hnone =>
    rw [walk, walk, h.node?_directory hdirectory, hdirectory]
    simp only [if_neg hdot, if_neg hparent, if_neg hshort, hsame]
    rw [hnone]
  | case9 links start name rest hnot =>
    rw [walk, walk, hsame]
    split
    next hdirectory => exact absurd hdirectory hnot
    · rfl

theorem reach?_eq (h : t.Grows t') (path : String) : t'.reach? path = t.reach? path := by
  rw [reach?, reach?, h.base_eq, h.reach_eq]

theorem locate_eq_of_reach? (h : t.Grows t') (hsame : ∀ place ∈ t.reach? path, t'.node? place = t.node? place) :
    t'.locate path = t.locate path := by
  unfold locate
  unfold reach? at hsame
  rw [h.base_eq]
  split_ifs with hzero hempty hlong
  · rfl
  · rfl
  · rfl
  · rw [if_neg (by simp [hzero, hempty, hlong])] at hsame
    exact h.walk_eq_of_reach (hsame _ rfl)

end Grows

/-! ## Writing elsewhere -/

/-- What is written goes to the place that its path gets to, or to a device. -/
theorem write_reach? {content : ByteArray} (h : t.write path content = .ok t') :
    ∃ place, t.reach? path = some place ∧ t.node? place ≠ some .directory ∧
      (t.Accepts place ∧ t' = t.put place (.file content) ∨ t' = t) := by
  obtain ⟨place, hplace, ⟨haccepts, -, rfl⟩ | ⟨hdevice, rfl⟩⟩ := write_cases h
  · exact ⟨place, reach?_of_place? hplace, haccepts.not_directory, .inl ⟨haccepts, rfl⟩⟩
  · exact ⟨place, reach?_of_place? hplace, by simp [hdevice], .inr rfl⟩

/-- Whether two paths get to the same place only if it is a directory. -/
def Apart (t : Tree) (path other : String) : Prop :=
  ∀ place, t.reach? path = some place → t.reach? other = some place → t.node? place = some .directory

theorem Apart.of_grows (h : t.Apart path other) (hgrows : t.Grows t') : t'.Apart path other := by
  intro place hpath hother
  rw [hgrows.reach?_eq] at hpath hother
  exact hgrows.node?_directory (h place hpath hother)

/-- What is written to one of two paths that are apart changes nothing for the other. -/
theorem Apart.lookup_eq (h : t.Apart path other) {content : ByteArray} (hwrite : t.write other content = .ok t') :
    t'.lookup path = t.lookup path := by
  rw [lookup, lookup, (Grows.of_write hwrite).locate_eq_of_reach? fun place hpath => ?_]
  obtain ⟨target, hother, hnode, ⟨haccepts, rfl⟩ | rfl⟩ := write_reach? hwrite
  · rw [node?_put haccepts, if_neg]
    rintro rfl
    exact hnode (h place hpath hother)
  · rfl

/-- Whether a path gets to nothing in a place but to directories. -/
def Outside (t : Tree) (path : String) (directory : Place) : Prop :=
  ∀ place, t.reach? path = some place → place.dropLast = directory → t.node? place = some .directory

theorem Outside.of_grows {directory : Place} (h : t.Outside path directory) (hgrows : t.Grows t') :
    t'.Outside path directory := by
  intro place hpath hparent
  rw [hgrows.reach?_eq] at hpath
  exact hgrows.node?_directory (h place hpath hparent)

/-- What is put elsewhere changes none of the names in a place. -/
theorem namesAt_put {directory : Place} (haccepts : t.Accepts place) (hparent : place.dropLast ≠ directory) (node : Node) :
    (t.put place node).namesAt directory = t.namesAt directory := by
  have hnew : namesAmong [(place, node)] directory = [] := by
    rw [namesAmong, List.filterMap_cons_none, List.filterMap_nil]
    simp only [if_neg hparent]
    split <;> rfl
  have hold : namesAmong (t.nodes.filter (·.1 ≠ place)) directory = namesAmong t.nodes directory := by
    unfold namesAmong
    rw [List.filterMap_filter]
    refine congrArg (List.filterMap · t.nodes) (funext fun e => ?_)
    by_cases he : e.1 = place
    · simp only [he, if_neg hparent]
      cases place.getLast? <;> simp
    · simp [he]
  rw [namesAt, nodes_put haccepts, replace, namesAmong, List.filterMap_append]
  exact (congrArg₂ (· ++ ·) hold hnew).trans (List.append_nil _)

/-- What is written outside of a directory changes none of the names in it. -/
theorem Outside.namesAt_eq {directory : Place} (h : t.Outside path directory) {content : ByteArray}
    (hwrite : t.write path content = .ok t') : t'.namesAt directory = t.namesAt directory := by
  obtain ⟨place, hpath, hnode, ⟨haccepts, rfl⟩ | rfl⟩ := write_reach? hwrite
  · exact namesAt_put haccepts (fun hparent => hnode (h place hpath hparent)) _
  · rfl

end Lexeme.Files.Tree
