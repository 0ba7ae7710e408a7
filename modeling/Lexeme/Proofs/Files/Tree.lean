import Lexeme.Files.Tree
import Mathlib.Data.List.Basic
import Mathlib.Data.List.Induction
import Mathlib.Tactic.SplitIfs

/-!
# Where paths lead

A path that leads anywhere leads to a place, and what is found there is what the tree has there. A walk that comes to nothing
comes to a name in a directory (`walk_vacant`), so a tree accepts a node wherever a path leads, unless there is a directory
(`accepts_of_place?`). A write puts a file where there was none or another file (`write_cases`), so no path that led anywhere
leads anywhere else after it (`Grows.place?_eq`). After any number of writes a file that was written holds what was last
written to its place (`node?_writeAll`), and a place that was not written to holds what it held before
(`node?_eq_of_writeAll`).
-/

namespace Lexeme.Files

theorem slash_notMem_of_mem_splitOn {text part : List Char} (h : part ∈ text.splitOn '/') : '/' ∉ part := by
  induction text generalizing part with
  | nil =>
    obtain rfl : part = [] := by simpa using h
    exact List.not_mem_nil
  | cons c text ih =>
    rw [List.splitOn_cons_eq_if_modifyHead] at h
    split_ifs at h with hc
    · rcases List.mem_cons.mp h with rfl | h
      · exact List.not_mem_nil
      · exact ih h
    · obtain ⟨first, rest, hsplit⟩ := List.exists_cons_of_ne_nil (List.splitOn_ne_nil '/' text)
      rw [hsplit] at h ih
      rcases List.mem_cons.mp h with rfl | h
      · rw [List.mem_cons, not_or]
        exact ⟨fun heq => hc (beq_iff_eq.mpr heq.symm), ih List.mem_cons_self⟩
      · exact ih (List.mem_cons_of_mem _ h)

theorem slash_notMem_of_mem_parts {path part : String} (h : part ∈ parts path) : '/' ∉ part.toList := by
  obtain ⟨chars, hchars, rfl⟩ := List.mem_map.mp h
  rw [String.toList_ofList]
  exact slash_notMem_of_mem_splitOn hchars

/-- The names in a place are those of nodes. -/
theorem exists_node_of_mem_namesAmong {nodes : List (Place × Node)} {place : Place} {name : String}
    (h : name ∈ namesAmong nodes place) : ∃ node, (place ++ [name], node) ∈ nodes := by
  obtain ⟨⟨p, node⟩, he, hname⟩ := List.mem_filterMap.mp h
  refine ⟨node, ?_⟩
  cases hlast : p.getLast? with
  | none => simp [hlast] at hname
  | some last =>
    obtain ⟨rfl, rfl⟩ : p.dropLast = place ∧ last = name := by simpa [hlast] using hname
    rwa [List.dropLast_append_getLast? _ hlast]

namespace Tree

/-- The place of a location. -/
def Location.place : Location → Place
  | .found place _ => place
  | .vacant place => place

variable {t t' : Tree} {place : Place}

/-! ## Places -/

theorem Accepts.ne_root (h : t.Accepts place) : place ≠ [] := by
  rintro rfl
  exact h.not_directory rfl

theorem nodes_put (h : t.Accepts place) (node : Node) : (t.put place node).nodes = replace t.nodes place node := by
  rw [put, dif_pos h]

theorem here_put (t : Tree) (place : Place) (node : Node) : (t.put place node).here = t.here := by
  unfold put
  split <;> rfl

theorem node?_put (h : t.Accepts place) (node : Node) (other : Place) :
    (t.put place node).node? other = if other = place then some node else t.node? other := by
  rw [node?, nodes_put h]
  exact nodeAmong?_replace h.ne_root node other

theorem mem_nodes_of_node? {node : Node} (hplace : place ≠ []) (h : t.node? place = some node) : (place, node) ∈ t.nodes := by
  rw [node?, nodeAmong?, if_neg hplace] at h
  obtain ⟨⟨p, n⟩, hfound, rfl⟩ := Option.map_eq_some_iff.mp h
  have hp : p = place := by simpa using List.find?_some hfound
  exact hp ▸ List.mem_of_find?_eq_some hfound

theorem isName_of_node? {node : Node} (h : t.node? place = some node) : ∀ name ∈ place, IsName name := by
  by_cases hplace : place = []
  · simp [hplace]
  · exact t.isProper.isName _ (mem_nodes_of_node? hplace h)

theorem isName_of_mem_namesAt {name : String} (h : name ∈ t.namesAt place) : IsName name := by
  obtain ⟨node, he⟩ := exists_node_of_mem_namesAmong h
  exact t.isProper.isName _ he name (List.mem_append_right _ (List.mem_singleton_self name))

/-- What there is lies in a directory. -/
theorem node?_dropLast {node : Node} (h : t.node? place = some node) : t.node? place.dropLast = some .directory := by
  by_cases hplace : place = []
  · rw [hplace]
    rfl
  · exact t.isProper.isIn _ (mem_nodes_of_node? hplace h)

/-- All that leads down to something are directories. -/
theorem node?_of_above {node : Node} {above : Place} (h : t.node? place = some node) (habove : above <+: place)
    (hne : above ≠ place) : t.node? above = some .directory := by
  obtain ⟨below, rfl⟩ := habove
  induction below using List.reverseRecOn generalizing node with
  | nil => simp at hne
  | append_singleton below name ih =>
    have hparent := node?_dropLast h
    rw [← List.append_assoc, List.dropLast_concat] at hparent
    by_cases hbelow : below = []
    · rwa [hbelow, List.append_nil] at hparent
    · exact ih hparent (by simpa using hbelow)

/-- A walk that comes to nothing comes to a name in a directory. -/
theorem walk_vacant {links : Nat} {start : Place} {todo : List String} (h : t.walk links start todo = .ok (.vacant place))
    (htodo : ∀ part ∈ todo, '/' ∉ part.toList) :
    ∃ parent name, place = parent ++ [name] ∧ t.node? parent = some .directory ∧ IsName name ∧ t.node? place = none := by
  fun_induction walk t links start todo with
  | case1 links start => cases hnode : t.node? start <;> rw [hnode] at h <;> cases h
  | case2 links start name rest hdirectory hdot ih => exact ih h fun part hpart => htodo part (List.mem_cons_of_mem _ hpart)
  | case3 links start rest hdirectory hdot ih => exact ih h fun part hpart => htodo part (List.mem_cons_of_mem _ hpart)
  | case4 => cases h
  | case5 => cases h
  | case6 start name rest hdirectory hdot hparent hshort link hlink links ih =>
    refine ih h fun part hpart => ?_
    rcases List.mem_append.mp hpart with hpart | hpart
    · exact slash_notMem_of_mem_parts hpart
    · exact htodo part (List.mem_cons_of_mem _ hpart)
  | case7 links start name rest hdirectory hdot hparent hshort node hnot hnode ih =>
    exact ih h fun part hpart => htodo part (List.mem_cons_of_mem _ hpart)
  | case8 links start name hdirectory hdot hparent hshort hnone =>
    cases h
    obtain ⟨hempty, hdot⟩ := not_or.mp hdot
    exact ⟨start, name, rfl, hdirectory, ⟨hempty, hdot, hparent, htodo name List.mem_cons_self⟩, hnone⟩
  | case9 => cases h
  | case10 => cases h

/-- What is at a place, as a location. -/
def atPlace (t : Tree) (place : Place) : Location := (t.node? place).elim (.vacant place) (.found place)

@[simp] theorem place_atPlace (t : Tree) (place : Place) : (t.atPlace place).place = place := by
  unfold atPlace
  cases t.node? place <;> rfl

/-- The place that a path leads to. -/
def place? (t : Tree) (path : String) : Option Place := (t.locate path).toOption.map Location.place

/-- Whether a file can be put at a place: nothing is there, or a file. -/
def TakesFile (t : Tree) (place : Place) : Prop := ∀ node ∈ t.node? place, ∃ content, node = .file content

/-- Whether a tree has become another one by nothing but files, put where there was nothing or a file. -/
structure Grows (t t' : Tree) : Prop where
  here_eq : t'.here = t.here
  node?_eq : ∀ place, t'.node? place = t.node? place ∨
    t.TakesFile place ∧ ∃ content, t'.node? place = some (.file content)

namespace Grows

theorem refl (t : Tree) : t.Grows t := ⟨rfl, fun _ => .inl rfl⟩

theorem node?_of_ne_file (h : t.Grows t') {node : Node} (hnode : t.node? place = some node)
    (hne : ∀ content, node ≠ .file content) : t'.node? place = some node := by
  rcases h.node?_eq place with heq | ⟨htakes, -⟩
  · rw [heq, hnode]
  · obtain ⟨content, rfl⟩ := htakes node hnode
    exact absurd rfl (hne content)

theorem node?_directory (h : t.Grows t') (hnode : t.node? place = some .directory) : t'.node? place = some .directory :=
  h.node?_of_ne_file hnode nofun

theorem node?_link (h : t.Grows t') {target : String} (hnode : t.node? place = some (.link target)) :
    t'.node? place = some (.link target) :=
  h.node?_of_ne_file hnode nofun

theorem node?_device (h : t.Grows t') (hnode : t.node? place = some .device) : t'.node? place = some .device :=
  h.node?_of_ne_file hnode nofun

theorem exists_node? (h : t.Grows t') {node : Node} (hnode : t.node? place = some node) :
    ∃ node', t'.node? place = some node' := by
  rcases h.node?_eq place with heq | ⟨-, content, hcontent⟩
  · exact ⟨node, heq.trans hnode⟩
  · exact ⟨_, hcontent⟩

/-- No link comes where there was none. -/
theorem node?_ne_link (h : t.Grows t') {node : Node} (hnode : t.node? place = some node) (hne : ∀ target, node ≠ .link target) :
    ∃ node', t'.node? place = some node' ∧ ∀ target, node' ≠ .link target := by
  rcases h.node?_eq place with heq | ⟨-, content, hcontent⟩
  · exact ⟨node, heq.trans hnode, hne⟩
  · exact ⟨_, hcontent, nofun⟩

theorem trans {t'' : Tree} (h : t.Grows t') (h' : t'.Grows t'') : t.Grows t'' := by
  refine ⟨h'.here_eq.trans h.here_eq, fun place => ?_⟩
  rcases h.node?_eq place with heq | ⟨htakes, content, hcontent⟩
  · rcases h'.node?_eq place with heq' | ⟨htakes, hfile⟩
    · exact .inl (heq'.trans heq)
    · exact .inr ⟨by rwa [TakesFile, ← heq], hfile⟩
  · rcases h'.node?_eq place with heq' | ⟨-, hfile⟩
    · exact .inr ⟨htakes, content, heq'.trans hcontent⟩
    · exact .inr ⟨htakes, hfile⟩

/-- What led to a place leads there still. Only directories and links are passed on the way, and they stay. -/
theorem walk_eq (h : t.Grows t') {links : Nat} {start : Place} {todo : List String} {location : Location}
    (hwalk : t.walk links start todo = .ok location) :
    ∃ target, location = t.atPlace target ∧ t'.walk links start todo = .ok (t'.atPlace target) := by
  fun_induction walk t links start todo with
  | case1 links start =>
    cases hnode : t.node? start with
    | none => rw [hnode] at hwalk; cases hwalk
    | some node =>
      rw [hnode] at hwalk
      obtain rfl := Except.ok.inj hwalk
      refine ⟨start, by rw [atPlace, hnode]; rfl, ?_⟩
      obtain ⟨node', hnode'⟩ := h.exists_node? hnode
      rw [walk, atPlace, hnode']
      rfl
  | case2 links start name rest hdirectory hdot ih =>
    obtain ⟨target, htarget, hwalk'⟩ := ih hwalk
    refine ⟨target, htarget, ?_⟩
    rw [walk, h.node?_directory hdirectory]
    simp only [if_pos hdot, hwalk']
  | case3 links start rest hdirectory hdot ih =>
    obtain ⟨target, htarget, hwalk'⟩ := ih hwalk
    refine ⟨target, htarget, ?_⟩
    rw [walk, h.node?_directory hdirectory]
    simp only [if_neg hdot, if_pos, hwalk']
  | case4 => cases hwalk
  | case5 => cases hwalk
  | case6 start name rest hdirectory hdot hparent hshort link hlink links ih =>
    obtain ⟨target, htarget, hwalk'⟩ := ih hwalk
    refine ⟨target, htarget, ?_⟩
    rw [walk, h.node?_directory hdirectory]
    simp only [if_neg hdot, if_neg hparent, if_neg hshort, h.node?_link hlink]
    exact hwalk'
  | case7 links start name rest hdirectory hdot hparent hshort node hnot hnode ih =>
    obtain ⟨target, htarget, hwalk'⟩ := ih hwalk
    refine ⟨target, htarget, ?_⟩
    obtain ⟨node', hnode', hnot'⟩ := h.node?_ne_link hnode fun target heq => hnot target heq
    rw [walk, h.node?_directory hdirectory]
    simp only [if_neg hdot, if_neg hparent, if_neg hshort, hnode']
    cases node' with
    | link target => exact absurd rfl (hnot' target)
    | _ => exact hwalk'
  | case8 links start name hdirectory hdot hparent hshort hnone =>
    obtain rfl := Except.ok.inj hwalk
    refine ⟨start ++ [name], by rw [atPlace, hnone]; rfl, ?_⟩
    rw [walk, h.node?_directory hdirectory]
    simp only [if_neg hdot, if_neg hparent, if_neg hshort]
    rcases h.node?_eq (start ++ [name]) with heq | ⟨-, content, hcontent⟩
    · rw [atPlace, heq, hnone]
      rfl
    · rw [atPlace, hcontent]
      simp only [walk, hcontent]
      rfl
  | case9 => cases hwalk
  | case10 => cases hwalk

theorem base_eq (h : t.Grows t') (path : String) : t'.base path = t.base path := by
  rw [base, base, h.here_eq]

/-- What a path led to, it leads to still. -/
theorem locate_eq (h : t.Grows t') {path : String} {location : Location} (hlocate : t.locate path = .ok location) :
    ∃ target, location = t.atPlace target ∧ t'.locate path = .ok (t'.atPlace target) := by
  unfold locate at hlocate ⊢
  rw [h.base_eq]
  split_ifs at hlocate ⊢
  exact h.walk_eq hlocate

end Grows

theorem place?_eq_some_iff {path : String} : t.place? path = some place ↔ t.locate path = .ok (t.atPlace place) := by
  unfold place?
  cases hlocate : t.locate path with
  | error failure => exact iff_of_false nofun nofun
  | ok location =>
    obtain ⟨target, rfl, -⟩ := (Grows.refl t).locate_eq hlocate
    constructor
    · intro h
      obtain rfl : target = place := by simpa [Except.toOption] using h
      rfl
    · intro h
      rw [Except.ok.inj h]
      simp [Except.toOption]

theorem Grows.place?_eq (h : t.Grows t') {path : String} (hplace : t.place? path = some place) :
    t'.place? path = some place := by
  obtain ⟨target, htarget, hlocate⟩ := h.locate_eq (place?_eq_some_iff.mp hplace)
  obtain rfl : place = target := by simpa using congrArg Location.place htarget
  exact place?_eq_some_iff.mpr hlocate

/-- A path is looked up at the place that it leads to. -/
theorem lookup_eq {path : String} (h : t.place? path = some place) :
    t.lookup path = (t.node? place).elim (.error .notFound) .ok := by
  rw [lookup, place?_eq_some_iff.mp h, atPlace]
  cases t.node? place <;> rfl

/-- The place that a path leads to lies in a directory, and is made of names. -/
theorem isIn_of_place? {path : String} (h : t.place? path = some place) :
    (∀ name ∈ place, IsName name) ∧ t.node? place.dropLast = some .directory := by
  cases hnode : t.node? place with
  | some node => exact ⟨isName_of_node? hnode, node?_dropLast hnode⟩
  | none =>
    have hlocate := place?_eq_some_iff.mp h
    rw [atPlace, hnode, locate] at hlocate
    split_ifs at hlocate
    obtain ⟨parent, name, rfl, hparent, hname, -⟩ := walk_vacant hlocate fun _ => slash_notMem_of_mem_parts
    refine ⟨fun part hpart => ?_, by rwa [List.dropLast_concat]⟩
    rcases List.mem_append.mp hpart with hpart | hpart
    · exact isName_of_node? hparent part hpart
    · exact List.mem_singleton.mp hpart ▸ hname

/-- A node can be put wherever a path leads, unless to a directory. -/
theorem accepts_of_place? {path : String} (h : t.place? path = some place) (hnode : t.node? place ≠ some .directory) :
    t.Accepts place :=
  ⟨(isIn_of_place? h).1, (isIn_of_place? h).2, hnode⟩

/-! ## Writing -/

/-- What a write does to the place that its path leads to. -/
theorem write_eq {path : String} (hplace : t.place? path = some place) (content : ByteArray) :
    t.write path content =
      match t.node? place with
      | none | some (.file _) => .ok (t.put place (.file content))
      | some .device => .ok t
      | some _ => .error .isDirectory := by
  rw [write, place?_eq_some_iff.mp hplace, atPlace]
  cases t.node? place with
  | none => rfl
  | some node => cases node <;> rfl

/-- Where nothing is yet, a write puts a file. -/
theorem write_of_vacant {path : String} (hplace : t.place? path = some place) (hvacant : t.node? place = none)
    (content : ByteArray) : t.write path content = .ok (t.put place (.file content)) := by
  rw [write_eq hplace, hvacant]

/-- What a write does: it puts a file where there was nothing or a file, or gives the content to a device. -/
theorem write_cases {path : String} {content : ByteArray} (h : t.write path content = .ok t') :
    ∃ place, t.place? path = some place ∧
      (t.Accepts place ∧ t.TakesFile place ∧ t' = t.put place (.file content) ∨ t.node? place = some .device ∧ t' = t) := by
  unfold write at h
  cases hlocate : t.locate path with
  | error failure => rw [hlocate] at h; cases h
  | ok location =>
    obtain ⟨place, rfl, -⟩ := (Grows.refl t).locate_eq hlocate
    have hplace := place?_eq_some_iff.mpr hlocate
    refine ⟨place, hplace, ?_⟩
    rw [hlocate, atPlace] at h
    cases hnode : t.node? place with
    | none =>
      rw [hnode] at h
      exact .inl ⟨accepts_of_place? hplace (by simp [hnode]), by simp [TakesFile, hnode], (Except.ok.inj h).symm⟩
    | some node =>
      rw [hnode] at h
      cases node with
      | file old =>
        exact .inl ⟨accepts_of_place? hplace (by simp [hnode]), by simp [TakesFile, hnode], (Except.ok.inj h).symm⟩
      | device => exact .inr ⟨rfl, (Except.ok.inj h).symm⟩
      | directory => cases h
      | link => cases h

theorem Grows.of_write {path : String} {content : ByteArray} (h : t.write path content = .ok t') : t.Grows t' := by
  obtain ⟨place, -, ⟨haccepts, htakes, rfl⟩ | ⟨-, rfl⟩⟩ := write_cases h
  · refine ⟨here_put _ _ _, fun other => ?_⟩
    rw [node?_put haccepts]
    split_ifs with hother
    · subst hother
      exact .inr ⟨htakes, content, rfl⟩
    · exact .inl rfl
  · exact .refl _

/-- A place that a write does not lead to holds what it held before. -/
theorem node?_of_write {path : String} {content : ByteArray} (h : t.write path content = .ok t')
    (hplace : t.place? path ≠ some place) : t'.node? place = t.node? place := by
  obtain ⟨target, htarget, ⟨haccepts, -, rfl⟩ | ⟨-, rfl⟩⟩ := write_cases h
  · refine (node?_put haccepts _ _).trans (if_neg fun hsame => ?_)
    exact hplace (hsame ▸ htarget)
  · rfl

theorem lookup_of_write {path other : String} {content : ByteArray} (h : t.write path content = .ok t')
    (hother : t.place? other = some place) (hplace : t.place? path ≠ some place) : t'.lookup other = t.lookup other := by
  rw [lookup_eq hother, lookup_eq ((Grows.of_write h).place?_eq hother), node?_of_write h hplace]

/-- Writes one file after the other. -/
def writeAll (t : Tree) (writes : List (String × ByteArray)) : Except Failure Tree :=
  writes.foldlM (fun (t : Tree) w => t.write w.1 w.2) t

/-- The last content that was written to the place that a path leads to. -/
def lastWritten? (t : Tree) (path : String) (writes : List (String × ByteArray)) : Option ByteArray :=
  ((writes.filter fun w => t.place? w.1 = t.place? path).getLast?).map Prod.snd

variable {writes : List (String × ByteArray)}

theorem writeAll_concat_iff {w : String × ByteArray} :
    t.writeAll (writes ++ [w]) = .ok t' ↔ ∃ mid, t.writeAll writes = .ok mid ∧ mid.write w.1 w.2 = .ok t' := by
  unfold writeAll
  rw [List.foldlM_append]
  cases writes.foldlM (fun (t : Tree) w => t.write w.1 w.2) t with
  | error failure => exact iff_of_false nofun nofun
  | ok mid =>
    have hlast : [w].foldlM (fun (t : Tree) w => t.write w.1 w.2) mid = mid.write w.1 w.2 := by
      rw [List.foldlM_cons]
      exact bind_pure _
    exact ⟨fun h => ⟨mid, rfl, hlast ▸ h⟩, fun ⟨_, hmid, h⟩ => hlast.trans (Except.ok.inj hmid ▸ h)⟩

theorem Grows.of_writeAll (h : t.writeAll writes = .ok t') : t.Grows t' := by
  induction writes using List.reverseRecOn generalizing t' with
  | nil =>
    obtain rfl := Except.ok.inj h
    exact .refl _
  | append_singleton writes v ih =>
    obtain ⟨mid, hmid, hwrite⟩ := writeAll_concat_iff.mp h
    exact (ih hmid).trans (.of_write hwrite)

/-- A place that no write leads to holds what it held before. -/
theorem node?_eq_of_writeAll (h : t.writeAll writes = .ok t') (hplace : ∀ w ∈ writes, t'.place? w.1 ≠ some place) :
    t'.node? place = t.node? place := by
  induction writes using List.reverseRecOn generalizing t' with
  | nil => rw [Except.ok.inj h]
  | append_singleton writes v ih =>
    obtain ⟨mid, hmid, hwrite⟩ := writeAll_concat_iff.mp h
    have hgrows := Grows.of_write hwrite
    refine (node?_of_write hwrite fun hsame => ?_).trans (ih hmid fun w hw hsame => ?_)
    · exact hplace v (by simp) (hgrows.place?_eq hsame)
    · exact hplace w (List.mem_append_left _ hw) (hgrows.place?_eq hsame)

/-- The place of a file that was written holds what was last written there, unless it is a device. -/
theorem node?_writeAll (h : t.writeAll writes = .ok t') :
    ∀ w ∈ writes, ∃ place, t'.place? w.1 = some place ∧
      (t'.node? place = some .device ∨
        ∃ content, t'.lastWritten? w.1 writes = some content ∧ t'.node? place = some (.file content)) := by
  induction writes using List.reverseRecOn generalizing t' with
  | nil => nofun
  | append_singleton writes v ih =>
    obtain ⟨mid, hmid, hwrite⟩ := writeAll_concat_iff.mp h
    have hgrows := Grows.of_write hwrite
    obtain ⟨target, htarget, hput⟩ := write_cases hwrite
    have hnew := hgrows.place?_eq htarget
    intro w hw
    rcases List.mem_append.mp hw with hw | hw
    · obtain ⟨place, hplace, hnode⟩ := ih hmid w hw
      have hplace' := hgrows.place?_eq hplace
      refine ⟨place, hplace', ?_⟩
      by_cases hsame : place = target
      · subst hsame
        rcases hput with ⟨haccepts, -, rfl⟩ | ⟨hdevice, rfl⟩
        · refine .inr ⟨v.2, ?_, by rw [node?_put haccepts, if_pos rfl]⟩
          simp [lastWritten?, List.filter_append, hnew, hplace']
        · exact .inl hdevice
      · have hlast : t'.lastWritten? w.1 (writes ++ [v]) = mid.lastWritten? w.1 writes := by
          have hskip : [v].filter (fun u => t'.place? u.1 = t'.place? w.1) = [] := by
            simp [hnew, hplace', Ne.symm hsame]
          have hkeep : writes.filter (fun u => t'.place? u.1 = t'.place? w.1) =
              writes.filter fun u => mid.place? u.1 = mid.place? w.1 := by
            refine List.filter_congr fun u hu => ?_
            obtain ⟨other, hother, -⟩ := ih hmid u hu
            rw [hgrows.place?_eq hother, hplace', hother, hplace]
          rw [lastWritten?, lastWritten?, List.filter_append, hskip, hkeep, List.append_nil]
        have hkept : t'.node? place = mid.node? place := by
          rcases hput with ⟨haccepts, -, rfl⟩ | ⟨-, rfl⟩
          · rw [node?_put haccepts, if_neg hsame]
          · rfl
        rw [hlast, hkept]
        exact hnode
    · obtain rfl := List.mem_singleton.mp hw
      refine ⟨target, hnew, ?_⟩
      rcases hput with ⟨haccepts, -, rfl⟩ | ⟨hdevice, rfl⟩
      · refine .inr ⟨w.2, ?_, ?_⟩
        · simp [lastWritten?, List.filter_append]
        · rw [node?_put haccepts, if_pos rfl]
      · exact .inl hdevice

end Tree

end Lexeme.Files
