import Lexeme.Proofs.Batch.Reruns

/-!
# The names of outputs

The stem of a name is what precedes its last dot; a dot that begins the name does not count (`IsStem`). The output of an
input lies in the directory of the outputs and is called by the stem of the input, with `.json` after it
(`outputPath_of_fileName`). There is one exception: where the stem is a single dot, the extension takes the dot before it
along, and the two dots that are left lead out of the directory.
-/

namespace Lexeme.Batch

open Files (IsName)

variable {directory input name : String} {letters extension : List Char}

/-! ## Stems -/

/-- Whether a text is the stem of a name. -/
inductive IsStem : (name stem : List Char) → Prop
  | whole {name : List Char} (h : '.' ∉ name.tail) : IsStem name name
  | beforeDot {stem extension : List Char} (hne : stem ≠ []) (h : '.' ∉ extension) :
      IsStem (stem ++ '.' :: extension) stem

theorem splitName_of_notMem (h : '.' ∉ letters.tail) : Files.splitName letters = (letters, none) := by
  cases letters with
  | nil => rfl
  | cons c rest =>
    -- all letters but the first belong to what follows the last dot, so nothing can precede it
    have hrest : ∀ d ∈ rest.reverse, decide (d ≠ '.') = true := by
      intro d hd
      refine decide_eq_true ?_
      rintro rfl
      exact h (List.mem_reverse.mp hd)
    unfold Files.splitName
    dsimp only
    rw [List.reverse_cons, List.takeWhile_append_of_pos hrest]
    exact if_pos (by simp [List.take_eq_nil_iff]; omega)

theorem splitName_append (hne : letters ≠ []) (h : '.' ∉ extension) :
    Files.splitName (letters ++ '.' :: extension) = (letters, some extension) := by
  have hextension : ∀ d ∈ extension.reverse, decide (d ≠ '.') = true := by
    intro d hd
    refine decide_eq_true ?_
    rintro rfl
    exact h (List.mem_reverse.mp hd)
  unfold Files.splitName
  dsimp only
  rw [List.reverse_append, List.reverse_cons, List.append_assoc, List.takeWhile_append_of_pos hextension]
  have hlength : letters.length + (extension.length + 1) - extension.length - 1 = letters.length := by omega
  simp [hlength, hne]

/-- A name that has a dot after its first letter has a last one. -/
theorem exists_lastDot (h : '.' ∈ letters.tail) :
    ∃ stem extension, letters = stem ++ '.' :: extension ∧ stem ≠ [] ∧ '.' ∉ extension := by
  obtain ⟨before, after, hsplit, hbefore⟩ := List.eq_append_cons_of_mem (List.mem_reverse.mpr (List.mem_of_mem_tail h))
  have hletters : letters = after.reverse ++ '.' :: before.reverse := by
    rw [← List.reverse_reverse letters, hsplit]
    simp
  refine ⟨_, _, hletters, ?_, by simpa using hbefore⟩
  intro hnil
  rw [hletters, hnil] at h
  exact hbefore (by simpa using h)

/-- A name is split at the end of its stem. -/
theorem isStem_splitName (letters : List Char) : IsStem letters (Files.splitName letters).1 := by
  by_cases h : '.' ∈ letters.tail
  · obtain ⟨stem, extension, rfl, hne, hextension⟩ := exists_lastDot h
    rw [splitName_append hne hextension]
    exact .beforeDot hne hextension
  · rw [splitName_of_notMem h]
    exact .whole h

theorem IsStem.ne_nil {stem : List Char} (h : IsStem letters stem) (hne : letters ≠ []) : stem ≠ [] := by
  cases h with
  | whole => exact hne
  | beforeDot hstem => exact hstem

/-! ## Outputs -/

theorem isName_of_fileName? (h : Files.fileName? input = some name) : IsName name := by
  obtain ⟨hlast, hparent⟩ := Option.filter_eq_some_iff.mp h
  obtain ⟨hpart, hkept⟩ := List.mem_filter.mp (List.mem_of_getLast? hlast)
  obtain ⟨hempty, hdot⟩ : name ≠ "" ∧ name ≠ "." := by simpa using hkept
  exact ⟨hempty, hdot, by simpa using hparent, Files.slash_notMem_of_mem_parts hpart⟩

/-- The stem of an input is the one stem of its name. -/
theorem isStem_iff (hname : Files.fileName? input = some name) : IsStem name.toList letters ↔ letters = stem input := by
  have hstem : stem input = (Files.splitName name.toList).1 := by rw [stem, hname, Option.getD_some]
  rw [hstem]
  constructor
  · generalize name.toList = text
    rintro (hwhole | ⟨hne, hextension⟩)
    · rw [splitName_of_notMem hwhole]
    · rw [splitName_append hne hextension]
  · rintro rfl
    exact isStem_splitName name.toList

/-- An output that is called by its stem has that stem. -/
theorem splitName_json (hne : letters ≠ []) :
    Files.splitName (String.ofList letters ++ ".json").toList = (letters, some "json".toList) := by
  rw [String.toList_append, String.toList_ofList]
  exact splitName_append hne (by decide)

/-- The output of an input lies in the directory of the outputs, is called by the stem of the input, and is its own
output, unless the stem is a single dot: then it is the directory above. Outputs are the same for the same stems only. -/
theorem outputPath_of_fileName (hname : Files.fileName? input = some name) (directory : String) :
    (∀ letters, IsStem name.toList letters ↔ letters = stem input) ∧
      (stem input ≠ ['.'] →
        outputPath input directory = Files.join directory (String.ofList (stem input) ++ ".json") ∧
          IsName (String.ofList (stem input) ++ ".json") ∧
          Files.fileName? (outputPath input directory) = some (String.ofList (stem input) ++ ".json") ∧
          outputPath (outputPath input directory) directory = outputPath input directory) ∧
      (stem input = ['.'] →
        outputPath input directory = Files.join directory ".." ∧ Files.fileName? (outputPath input directory) = none ∧
          outputPath (outputPath input directory) directory = Files.join directory ".json") ∧
      ∀ other, outputPath input directory = outputPath other directory ↔ stem input = stem other := by
  have hisName := isName_of_fileName? hname
  have hstem : stem input = (Files.splitName name.toList).1 := by rw [stem, hname, Option.getD_some]
  have houtput : outputPath input directory = Files.join directory (Files.withExtension name "json") := by
    rw [outputPath, outputName, hname, Option.getD_some]
  rw [withExtension_eq hisName.ne_dot, ← hstem] at houtput
  refine ⟨fun letters => isStem_iff hname, fun hdot => ?_, fun hdot => ?_, fun other => outputPath_eq_iff⟩
  · rw [if_neg hdot] at houtput
    have hjson : IsName (String.ofList (stem input) ++ ".json") := by
      have hmade := isName_withExtension hisName
      rw [withExtension_eq hisName.ne_dot, ← hstem, if_neg hdot] at hmade
      exact hmade.resolve_left (ofList_json_ne_parent _)
    have hne : stem input ≠ [] := ((isStem_iff hname).mpr rfl).ne_nil (mt String.toList_eq_nil_iff.mp hisName.ne_empty)
    refine ⟨houtput, hjson, ?_, ?_⟩
    · rw [houtput, Files.fileName?_join directory hjson]
    · rw [houtput, outputPath_join directory hjson, withExtension_eq hjson.ne_dot, splitName_json hne, if_neg hdot]
  · rw [if_pos hdot] at houtput
    rw [houtput]
    refine ⟨rfl, Files.fileName?_join_parent directory, ?_⟩
    rw [outputPath, outputName, Files.fileName?_join_parent]
    rfl

/-- A name with a dot before it and two after, and one whose extension is all that tells it from two dots. -/
theorem outputPath_of_fileName_dots :
    (Files.fileName? "in/.a.b.py" = some ".a.b.py" ∧ outputPath "in/.a.b.py" "out" = "out/.a.b.json" ∧
      outputPath "out/.a.b.json" "out" = "out/.a.b.json") ∧
    Files.fileName? "in/..a" = some "..a" ∧ outputPath "in/..a" "out" = "out/.." ∧
      Files.fileName? "out/.." = none ∧ outputPath "out/.." "out" = "out/.json" := by
  have hname : Files.fileName? "in/.a.b.py" = some ".a.b.py" := by cbv
  have hstem : stem "in/.a.b.py" = ".a.b".toList := by cbv
  have hdots : Files.fileName? "in/..a" = some "..a" := by cbv
  obtain ⟨hjson, -, -, hagain⟩ := (outputPath_of_fileName hname "out").2.1 (by rw [hstem]; decide)
  rw [hstem, show Files.join "out" _ = "out/.a.b.json" by cbv] at hjson
  rw [hjson] at hagain
  obtain ⟨hparent, hnone, hlost⟩ := (outputPath_of_fileName hdots "out").2.2.1 (by cbv)
  rw [show Files.join "out" ".." = "out/.." by cbv] at hparent
  rw [hparent] at hnone hlost
  exact ⟨⟨hname, hjson, hagain⟩, hdots, hparent, hnone, hlost.trans (by cbv)⟩

end Lexeme.Batch
