import Lexeme.Proofs.Files.Tree
import Lexeme.Proofs.Files.Reach

/-!
# Entries of directories

The path of a name in a directory gets to its own place in the directory, unless it is a link (`reach?_join_eq`). So two
directories have nothing to do with each other when they are not the same and there are no links between them
(`Separate`): what is written to an entry of one of them is not seen in the other (`Separate.apart`, `Separate.outside`).
-/

namespace Lexeme.Files

/-! ## The paths of entries -/

variable {directory name : String}

/-- The parts of the path of a name in a directory are those of the directory and the name, except that a slash at the
end of the directory counts for nothing. -/
theorem parts_join (hdirectory : directory ≠ "") (hname : '/' ∉ name.toList) :
    ∃ init, parts (join directory name) = init ++ [name] ∧ (parts directory = init ∨ parts directory = init ++ [""]) := by
  have hparts {joined : String} {before : List Char} (h : joined.toList = before ++ '/' :: name.toList) :
      parts joined = (before.splitOn '/').map String.ofList ++ [name] := by
    rw [parts, h, List.splitOn_append_cons_self, List.splitOn_eq_singleton hname]
    simp
  unfold join
  split_ifs with hends
  · have hslash : directory.endsWith "/" = true := hends.resolve_left (by simpa using hdirectory)
    rw [String.endsWith_eq_endsWith_toSlice, String.Slice.endsWith_string_iff] at hslash
    obtain ⟨before, hbefore⟩ := hslash
    have hbefore : directory.toList = before ++ ['/'] := by simpa using hbefore.symm
    refine ⟨(before.splitOn '/').map String.ofList, hparts (by simp [hbefore]), .inr ?_⟩
    rw [parts, hbefore, List.splitOn_append_cons_self]
    simp
  · exact ⟨parts directory, hparts (by simp), .inl rfl⟩

/-- The parts of the path of a name end with the name, also where no directory is given. -/
theorem exists_parts_join (directory : String) (hname : '/' ∉ name.toList) :
    ∃ init, parts (join directory name) = init ++ [name] := by
  by_cases hdirectory : directory = ""
  · subst hdirectory
    exact ⟨[], by simp [join, parts, List.splitOn_eq_singleton hname]⟩
  · obtain ⟨init, hparts, -⟩ := parts_join hdirectory hname
    exact ⟨init, hparts⟩

theorem fileName?_join (directory : String) (hname : IsName name) : fileName? (join directory name) = some name := by
  obtain ⟨init, hparts⟩ := exists_parts_join directory hname.slash_notMem
  simp [fileName?, hparts, List.filter_append, hname.ne_empty, hname.ne_dot, hname.ne_parent, Option.filter]

/-- The directory above has no name of its own. -/
theorem fileName?_join_parent (directory : String) : fileName? (join directory "..") = none := by
  obtain ⟨init, hparts⟩ := exists_parts_join directory (by decide : '/' ∉ "..".toList)
  simp [fileName?, hparts, List.filter_append, Option.filter]

namespace Tree

variable {t : Tree} {place : Place} {links : Nat} {entry : Place}

theorem ne_empty_of_place? {path : String} (h : t.place? path = some place) : path ≠ "" := by
  rintro rfl
  rw [place?_eq_some_iff, locate] at h
  simp at h

theorem base_join (hdirectory : directory ≠ "") (name : String) : t.base (join directory name) = t.base directory := by
  have hstarts (after : String) : (directory ++ after).startsWith "/" = directory.startsWith "/" := by
    obtain ⟨c, rest, hcons⟩ := List.exists_cons_of_ne_nil (mt String.toList_eq_nil_iff.mp hdirectory)
    rw [Bool.eq_iff_iff, String.startsWith_string_iff, String.startsWith_string_iff, String.toList_append, hcons]
    simp
  obtain ⟨after, hjoin⟩ : ∃ after, join directory name = directory ++ after := by
    unfold join
    split_ifs
    · exact ⟨_, rfl⟩
    · exact ⟨_, String.append_assoc⟩
  rw [base, base, hjoin, hstarts]

/-- The path of a name in a directory gets to where the name leads from there. -/
theorem exists_reach_join (hplace : t.place? directory = some place) (hdirectory : t.node? place = some .directory)
    (hname : '/' ∉ name.toList) (hentry : t.reach? (join directory name) = some entry) :
    ∃ links, entry = t.reach links place [name] := by
  have hne := ne_empty_of_place? hplace
  have hwalk : t.walk linkLimit (t.base directory) (parts directory) = .ok (.found place .directory) := by
    have hlocate := place?_eq_some_iff.mp hplace
    rw [atPlace, hdirectory, locate] at hlocate
    split_ifs at hlocate
    exact hlocate
  obtain ⟨links, hreach⟩ := exists_reach_append hwalk
  obtain ⟨init, hjoin, hinit⟩ := parts_join hne hname
  refine ⟨links, ?_⟩
  rw [reach?] at hentry
  split_ifs at hentry
  rw [← Option.some.inj hentry, ← hreach, base_join hne, hjoin]
  rcases hinit with hinit | hinit
  · rw [hinit]
  · rw [hinit, List.append_assoc, List.singleton_append, reach_append_empty_cons (List.cons_ne_nil _ _)]

/-- A name leads to its own place, unless there is a link. -/
theorem reach_name (hdirectory : t.node? place = some .directory) (hname : IsName name)
    (hlink : ∀ target, t.node? (place ++ [name]) ≠ some (.link target)) : t.reach links place [name] = place ++ [name] := by
  rw [reach, hdirectory]
  simp only [hname.ne_empty, hname.ne_dot, hname.ne_parent, or_self, if_false]
  split_ifs
  · rfl
  · split
    next target htarget => exact absurd htarget (hlink target)
    · rw [reach]
    · rfl

/-! ## Directories that are kept apart -/

/-- Whether a name in a directory is a link that gets to a place. -/
def LinksTo (t : Tree) (directory name : String) (entry : Place) : Prop :=
  t.reach? (join directory name) = some entry ∧
    ∃ place target, t.place? directory = some place ∧ t.node? (place ++ [name]) = some (.link target)

/-- Whether two paths do not lead to the same directory, and there are no links between the directories that they lead to:
none from an entry of one of them to an entry of the other, and none from entries of both to one place. -/
structure Separate (t : Tree) (input output : String) : Prop where
  place?_ne : ∀ place, t.place? input = some place → t.place? output ≠ some place
  not_forth : ∀ name other target, t.place? output = some target → ¬t.LinksTo input name (target ++ [other])
  not_back : ∀ name other source, t.place? input = some source → ¬t.LinksTo output name (source ++ [other])
  not_meet : ∀ name other entry, t.LinksTo input name entry → ¬t.LinksTo output other entry

/-- Where there are no links at all, there are none between two directories. -/
theorem Separate.of_no_links {input output : String} (hplace : ∀ place, t.place? input = some place → t.place? output ≠ some place)
    (hlinks : ∀ place target, t.node? place ≠ some (.link target)) : t.Separate input output := by
  have hnone (directory name : String) (entry : Place) : ¬t.LinksTo directory name entry :=
    fun ⟨_, _, _, _, hlink⟩ => hlinks _ _ hlink
  exact ⟨hplace, fun _ _ _ _ => hnone _ _ _, fun _ _ _ _ => hnone _ _ _, fun _ _ _ _ => hnone _ _ _⟩

/-- The path of a name in a directory gets to its own place, unless it is a link. -/
theorem reach?_join_eq (hplace : t.place? directory = some place) (hdirectory : t.node? place = some .directory)
    (hname : IsName name) (hentry : t.reach? (join directory name) = some entry) :
    entry = place ++ [name] ∨ t.LinksTo directory name entry := by
  by_cases hlink : ∃ target, t.node? (place ++ [name]) = some (.link target)
  · obtain ⟨target, htarget⟩ := hlink
    exact .inr ⟨hentry, place, target, hplace, htarget⟩
  · obtain ⟨links, rfl⟩ := exists_reach_join hplace hdirectory hname.slash_notMem hentry
    exact .inl (reach_name hdirectory hname (not_exists.mp hlink))

/-- The two dots in a directory lead to a directory. -/
theorem node?_of_reach?_parent (hplace : t.place? directory = some place)
    (hdirectory : t.node? place = some .directory) (hentry : t.reach? (join directory "..") = some entry) :
    t.node? entry = some .directory := by
  obtain ⟨links, rfl⟩ := exists_reach_join hplace hdirectory (by decide) hentry
  rw [reach, hdirectory]
  simp only [String.reduceEq, or_self, if_false, if_true, reach]
  exact node?_dropLast hdirectory

section

variable {input output other : String} {source target : Place}

/-- Entries of directories that are kept apart are apart. -/
theorem Separate.apart (h : t.Separate input output) (hsource : t.place? input = some source)
    (hinput : t.node? source = some .directory) (htarget : t.place? output = some target)
    (houtput : t.node? target = some .directory) (hname : IsName name) (hother : IsName other) :
    t.Apart (join input name) (join output other) := by
  intro entry hentry hentry'
  rcases reach?_join_eq hsource hinput hname hentry with rfl | hlink
  · rcases reach?_join_eq htarget houtput hother hentry' with hsame | hlink
    · obtain rfl := (List.append_inj' hsame rfl).1
      exact absurd htarget (h.place?_ne _ hsource)
    · exact absurd hlink (h.not_back _ _ _ hsource)
  · rcases reach?_join_eq htarget houtput hother hentry' with rfl | hlink'
    · exact absurd hlink (h.not_forth _ _ _ htarget)
    · exact absurd hlink' (h.not_meet _ _ _ hlink)

/-- The entries of a directory lie outside of one that is kept apart. -/
theorem Separate.outside (h : t.Separate input output) (hsource : t.place? input = some source)
    (htarget : t.place? output = some target) (houtput : t.node? target = some .directory) (hother : IsName other) :
    t.Outside (join output other) source := by
  rintro entry hentry rfl
  rcases reach?_join_eq htarget houtput hother hentry with rfl | hlink
  · rw [List.dropLast_concat] at hsource
    exact absurd htarget (h.place?_ne _ hsource)
  · rcases List.eq_nil_or_concat' entry with rfl | ⟨init, last, rfl⟩
    · rfl
    · rw [List.dropLast_concat] at hsource
      exact absurd hlink (h.not_back _ _ _ hsource)

end

end Tree

end Lexeme.Files
