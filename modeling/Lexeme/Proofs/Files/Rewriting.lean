import Lexeme.Proofs.Files.Reach
import Mathlib.Data.List.Nodup

/-!
# Writing once more

Paths do not depend on the order in which a tree lists its nodes (`Same`). What has been written can be written again
(`Grows.exists_write`), and when the same files are written once more in the same order, the tree stays as it is
(`Same.of_writeAll`).
-/

namespace Lexeme.Files.Tree

variable {t t' last last' again : Tree} {path : String} {content : ByteArray} {writes : List (String × ByteArray)}

/-- Whether there is the same at each place of two trees. -/
structure Same (t t' : Tree) : Prop where
  here_eq : t'.here = t.here
  node?_eq : ∀ place, t'.node? place = t.node? place

namespace Same

theorem grows (h : t.Same t') : t.Grows t' := ⟨h.here_eq, fun place => .inl (h.node?_eq place)⟩

theorem locate_eq (h : t.Same t') (path : String) : t'.locate path = t.locate path :=
  h.grows.locate_eq_of_reach? fun place _ => h.node?_eq place

theorem lookup_eq (h : t.Same t') (path : String) : t'.lookup path = t.lookup path := by
  rw [lookup, lookup, h.locate_eq]

theorem write_eq_error {failure : Failure} (h : t.Same t') (hwrite : t.write path content = .error failure) :
    t'.write path content = .error failure := by
  unfold write at hwrite ⊢
  rw [h.locate_eq]
  split at hwrite
  · exact hwrite
  · cases hwrite
  · cases hwrite
  · exact hwrite
  · cases hwrite

end Same

/-- Whether two trees have the same at each place, and the same names in each directory, in any order. -/
structure Relisted (t t' : Tree) : Prop extends t.Same t' where
  namesAt_perm : ∀ place, (t'.namesAt place).Perm (t.namesAt place)

theorem nodeAmong?_perm {nodes nodes' : List (Place × Node)} (hnodes : nodes'.Perm nodes)
    (hdistinct : (nodes.map Prod.fst).Nodup) (place : Place) : nodeAmong? nodes' place = nodeAmong? nodes place := by
  have hfind : nodes'.find? (·.1 = place) = nodes.find? (·.1 = place) := by
    cases h : nodes.find? (·.1 = place) with
    | none => exact List.find?_eq_none.mpr fun e he => List.find?_eq_none.mp h e (hnodes.mem_iff.mp he)
    | some e =>
      have hmem := hnodes.mem_iff.mpr (List.mem_of_find?_eq_some h)
      obtain ⟨e', h'⟩ := Option.isSome_iff_exists.mp (List.find?_isSome.mpr ⟨e, hmem, List.find?_some h⟩)
      have hplace : e.1 = place := by simpa using List.find?_some h
      have hplace' : e'.1 = place := by simpa using List.find?_some h'
      rw [h', List.inj_on_of_nodup_map hdistinct (hnodes.mem_iff.mp (List.mem_of_find?_eq_some h')) (hnodes.mem_iff.mp hmem)
        (hplace'.trans hplace.symm)]
  rw [nodeAmong?, nodeAmong?, hfind]

theorem isProper_of_perm {nodes nodes' : List (Place × Node)} (h : IsProper nodes) (hnodes : nodes'.Perm nodes) :
    IsProper nodes' where
  distinct := (hnodes.map Prod.fst).nodup_iff.mpr h.distinct
  ne_root := fun e he => h.ne_root e (hnodes.mem_iff.mp he)
  isName := fun e he => h.isName e (hnodes.mem_iff.mp he)
  isIn := fun e he => by
    rw [nodeAmong?_perm hnodes h.distinct]
    exact h.isIn e (hnodes.mem_iff.mp he)

/-- The tree with its nodes listed in another order. -/
def listed (t : Tree) (nodes : List (Place × Node)) (h : nodes.Perm t.nodes) : Tree :=
  ⟨nodes, t.here, isProper_of_perm t.isProper h⟩

theorem relisted_listed (t : Tree) {nodes : List (Place × Node)} (h : nodes.Perm t.nodes) : t.Relisted (t.listed nodes h) :=
  ⟨⟨rfl, nodeAmong?_perm h t.isProper.distinct⟩, fun _ => h.filterMap _⟩

/-- A file can only become another file. -/
theorem Grows.node?_file {place : Place} (h : t.Grows t') (hfile : t.node? place = some (.file content)) :
    ∃ newer, t'.node? place = some (.file newer) := by
  rcases h.node?_eq place with heq | ⟨-, newer, hnewer⟩
  · exact ⟨content, heq.trans hfile⟩
  · exact ⟨newer, hnewer⟩

/-- What has been written can be written again, whatever has been written since. -/
theorem Grows.exists_write (h : t'.Grows last) (hwrite : t.write path content = .ok t') (content' : ByteArray) :
    ∃ last', last.write path content' = .ok last' := by
  obtain ⟨place, hplace, hput⟩ := write_cases hwrite
  rw [write_eq (h.place?_eq ((Grows.of_write hwrite).place?_eq hplace))]
  rcases hput with ⟨haccepts, -, rfl⟩ | ⟨hdevice, rfl⟩
  · obtain ⟨newer, hfile⟩ := h.node?_file (node?_put haccepts (.file content) place ▸ if_pos rfl)
    exact ⟨_, by rw [hfile]⟩
  · exact ⟨last, by rw [h.node?_device hdevice]⟩

/-- When the same is written once more, nothing changes. -/
theorem Same.of_writeAll (hsame : last.Same again) (h : t.writeAll writes = .ok last) (h' : again.writeAll writes = .ok last') :
    last.Same last' := by
  have hgrows : last.Grows last' := hsame.grows.trans (.of_writeAll h')
  have hplaces : ∀ w ∈ writes, last'.place? w.1 = last.place? w.1 := by
    intro w hw
    obtain ⟨place, hplace, -⟩ := node?_writeAll h w hw
    rw [hplace, hgrows.place?_eq hplace]
  refine ⟨hgrows.here_eq, fun place => ?_⟩
  by_cases hwritten : ∃ w ∈ writes, last.place? w.1 = some place
  · obtain ⟨w, hw, hplace⟩ := hwritten
    have hlast : last'.lastWritten? w.1 writes = last.lastWritten? w.1 writes := by
      unfold lastWritten?
      rw [List.filter_congr fun u hu => by rw [hplaces u hu, hplaces w hw]]
    obtain ⟨_, hfound, hnode⟩ := node?_writeAll h w hw
    obtain rfl := Option.some.inj (hplace.symm.trans hfound)
    obtain ⟨_, hfound', hnode'⟩ := node?_writeAll h' w hw
    obtain rfl := Option.some.inj ((hgrows.place?_eq hplace).symm.trans hfound')
    rcases hnode with hdevice | ⟨content, hcontent, hfile⟩
    · rw [hdevice, hgrows.node?_device hdevice]
    · rcases hnode' with hdevice' | ⟨content', hcontent', hfile'⟩
      · obtain ⟨_, hnew⟩ := hgrows.node?_file hfile
        cases hdevice'.symm.trans hnew
      · rw [hlast, hcontent] at hcontent'
        rw [hfile, hfile', Option.some.inj hcontent']
  · rw [← hsame.node?_eq]
    exact node?_eq_of_writeAll h' fun w hw hplace => hwritten ⟨w, hw, hplaces w hw ▸ hplace⟩

end Lexeme.Files.Tree
