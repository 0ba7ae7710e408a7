import Lexeme.Proofs.Batch.Isolation
import Lexeme.Proofs.Files.Entries
import Lexeme.Proofs.Files.Rewriting

/-!
# Batches that are run again

A batch takes its inputs in the same order however its directory is listed (`inputsIn_eq`). If the directories are kept
apart, no output is ever an input, so the inputs have the same records when the batch is run again, and the same outputs
are written in the same order. The second run comes to the same result and leaves the files as they are (`run_again`).
-/

namespace Lexeme.Batch

open Files (Tree Place IsName)

variable {tokenizer : Tokenizer} {options : Options} {input output : String} {duration : Duration} {session after : Session}
  {files last again : Tree} {source target : Place} {name other : String} {inputs : List String}
  {written : List (Outcome × List Record)} {failed : List (String × TokenizingError)}

/-! ## Outputs lie apart from inputs -/

/-- The output of a name is a name, or two dots. -/
theorem isName_withExtension (hname : IsName name) :
    Files.withExtension name "json" = ".." ∨ IsName (Files.withExtension name "json") := by
  rw [withExtension_eq hname.ne_dot]
  split_ifs
  · exact .inl rfl
  · refine .inr ?_
    have hstem : (Files.splitName name.toList).1 ⊆ name.toList := by
      unfold Files.splitName
      dsimp only
      split_ifs
      · exact List.Subset.refl _
      · exact List.take_subset _ _
    have hne (short : String) (hshort : short.length < 5) :
        String.ofList (Files.splitName name.toList).1 ++ ".json" ≠ short := by
      rintro rfl
      rw [String.length_append] at hshort
      exact absurd hshort (Nat.not_lt.mpr (Nat.le_add_left _ _))
    refine ⟨hne "" (by decide), hne "." (by decide), hne ".." (by decide), fun hslash => ?_⟩
    rw [String.toList_append, String.toList_ofList, List.mem_append] at hslash
    rcases hslash with hslash | hslash
    · exact hname.slash_notMem (hstem hslash)
    · revert hslash
      decide

theorem outputPath_join (input : String) (hname : IsName name) (output : String) :
    outputPath (Files.join input name) output = Files.join output (Files.withExtension name "json") := by
  rw [outputPath, outputName, Files.fileName?_join input hname, Option.getD_some]

/-- An output of one of two directories that are kept apart is apart from the entries of the other, and lies outside. -/
theorem apart_outputPath (hseparate : files.Separate input output)
    (hsource : files.place? input = some source) (hinput : files.node? source = some .directory)
    (htarget : files.place? output = some target) (houtput : files.node? target = some .directory)
    (hname : IsName name) (hother : IsName other) :
    files.Apart (Files.join input name) (outputPath (Files.join input other) output) ∧
      files.Outside (outputPath (Files.join input other) output) source := by
  rw [outputPath_join input hother]
  rcases isName_withExtension hother with hdots | hjson
  · -- the directory above takes no output
    rw [hdots]
    exact ⟨fun place _ hplace => Tree.node?_of_reach?_parent htarget houtput hplace,
      fun place hplace _ => Tree.node?_of_reach?_parent htarget houtput hplace⟩
  · exact ⟨hseparate.apart hsource hinput htarget houtput hname hjson, hseparate.outside hsource htarget houtput hjson⟩

/-! ## Inputs in another listing -/

theorem entryPaths_eq_map (hsource : files.place? input = some source) (hinput : files.node? source = some .directory) :
    entryPaths files input = (files.namesAt source).map (Files.join input) := by
  rw [entryPaths, Tree.list, Tree.place?_eq_some_iff.mp hsource, Tree.atPlace, hinput]
  rfl

theorem entryPaths_perm (h : files.Relisted again) (hinput : files.isDirectory input = true) :
    (entryPaths again input).Perm (entryPaths files input) := by
  obtain ⟨source, hsource, hnode, -⟩ := list_of_isDirectory hinput
  rw [entryPaths_eq_map hsource hnode, entryPaths_eq_map (h.grows.place?_eq hsource) (h.node?_eq source ▸ hnode)]
  exact (h.namesAt_perm source).map _

theorem inputsIn_perm (files : Tree) (input : String) :
    (inputsIn files input).Perm ((entryPaths files input).filter (!files.isDirectory ·)) := List.mergeSort_perm _ _

theorem mem_entryPaths_of_mem_inputsIn {path : String} (h : path ∈ inputsIn files input) : path ∈ entryPaths files input :=
  (List.mem_filter.mp ((inputsIn_perm files input).mem_iff.mp h)).1

/-- The inputs are the same, in the same order, however the names are listed. -/
theorem inputsIn_eq (hentries : (entryPaths again input).Perm (entryPaths files input))
    (hlookup : ∀ path ∈ entryPaths files input, again.lookup path = files.lookup path) :
    inputsIn again input = inputsIn files input := by
  have hfilter : (entryPaths files input).filter (!again.isDirectory ·) = (entryPaths files input).filter (!files.isDirectory ·) :=
    List.filter_congr fun path hpath => by rw [Tree.isDirectory, Tree.isDirectory, hlookup path hpath]
  have hperm := (inputsIn_perm again input).trans (hentries.filter _)
  rw [hfilter] at hperm
  exact (hperm.trans (inputsIn_perm files input).symm).eq_of_pairwise (fun _ _ _ _ => le_antisymm)
    (pairwise_inputsIn again input) (pairwise_inputsIn files input)

/-! ## Outputs change no input -/

theorem Written.lookup_eq (h : Written tokenizer output files written last) {path : String}
    (hapart : ∀ w ∈ written, files.Apart path w.1.output) : last.lookup path = files.lookup path := by
  induction h with
  | nil => rfl
  | cons _ hwrite _ ih =>
    have hfirst := hapart _ List.mem_cons_self
    rw [ih fun w hw => (hapart w (List.mem_cons_of_mem _ hw)).of_grows (.of_write hwrite), hfirst.lookup_eq hwrite]

theorem Written.namesAt_eq (h : Written tokenizer output files written last) {place : Place}
    (houtside : ∀ w ∈ written, files.Outside w.1.output place) : last.namesAt place = files.namesAt place := by
  induction h with
  | nil => rfl
  | cons _ hwrite _ ih =>
    have hfirst := houtside _ List.mem_cons_self
    rw [ih fun w hw => (houtside w (List.mem_cons_of_mem _ hw)).of_grows (.of_write hwrite), hfirst.namesAt_eq hwrite]

section

variable (hseparate : files.Separate input output) (houtput : files.isDirectory output = true)
  (hinput : files.isDirectory input = true)

include hseparate houtput hinput

/-- What is written for one of the entries is not seen by any of them, and puts no new name beside them. -/
theorem apart_of_mem_entryPaths {entry : String} (hentry : entry ∈ entryPaths files input) :
    (∀ path ∈ entryPaths files input, files.Apart path (outputPath entry output)) ∧
      ∀ source, files.place? input = some source → files.Outside (outputPath entry output) source := by
  obtain ⟨source, hsource, hsourceNode, -⟩ := list_of_isDirectory hinput
  obtain ⟨target, htarget, htargetNode, -⟩ := list_of_isDirectory houtput
  rw [entryPaths_eq_map hsource hsourceNode] at hentry ⊢
  obtain ⟨other, hother, rfl⟩ := List.mem_map.mp hentry
  have hother := Tree.isName_of_mem_namesAt hother
  have hboth {name : String} (hname : IsName name) :=
    apart_outputPath hseparate hsource hsourceNode htarget htargetNode hname hother
  refine ⟨fun path hpath => ?_, fun place hplace => ?_⟩
  · obtain ⟨name, hname, rfl⟩ := List.mem_map.mp hpath
    exact (hboth (Tree.isName_of_mem_namesAt hname)).1
  · obtain rfl := Option.some.inj (hsource.symm.trans hplace)
    exact (hboth hother).2

variable (h : Written tokenizer output files written last) (hinputs : ∀ w ∈ written, w.1.input ∈ entryPaths files input)

include h hinputs

theorem Written.lookup_entry_eq {path : String} (hpath : path ∈ entryPaths files input) :
    last.lookup path = files.lookup path :=
  h.lookup_eq fun w hw => h.output_eq hw ▸
    (apart_of_mem_entryPaths hseparate houtput hinput (hinputs w hw)).1 path hpath

theorem Written.entryPaths_eq : entryPaths last input = entryPaths files input := by
  obtain ⟨source, hsource, hnode, -⟩ := list_of_isDirectory hinput
  rw [entryPaths_eq_map hsource hnode, entryPaths_eq_map (h.grows.place?_eq hsource) (h.grows.node?_directory hnode)]
  exact congrArg _ (h.namesAt_eq fun w hw => h.output_eq hw ▸
    (apart_of_mem_entryPaths hseparate houtput hinput (hinputs w hw)).2 source hsource)

end

/-! ## The second run -/

/-- Inputs that were passed are passed again, in any files that have come of those that they left behind. -/
theorem Passed.exists_again (h : Passed tokenizer options output files inputs written failed last) (hgrows : last.Grows again)
    (hapart : ∀ path ∈ inputs, ∀ other ∈ inputs, files.Apart path (outputPath other output))
    (hlookup : ∀ path ∈ inputs, again.lookup path = files.lookup path) :
    ∃ last', Passed tokenizer options output again inputs written failed last' := by
  induction h generalizing again with
  | nil => exact ⟨again, .nil again⟩
  | @written files mid last input inputs records written failed hrecords hwrite hrest ih =>
    obtain ⟨next, hwrite'⟩ := (hrest.toWritten.grows.trans hgrows).exists_write hwrite (artifactBytes records)
    have hgrowsFirst : files.Grows mid := .of_write hwrite
    have hfiles : files.Grows again := hgrowsFirst.trans (hrest.toWritten.grows.trans hgrows)
    have hrecords' : HasRecords tokenizer again input records := fun log =>
      fileRecords_congr (hlookup input List.mem_cons_self) tokenizer ▸ hrecords log
    -- neither of the two writes is seen by the inputs that are left
    have hlookup' : ∀ path ∈ inputs, next.lookup path = mid.lookup path := by
      intro path hpath
      have hpath := List.mem_cons_of_mem input hpath
      have hfirst := hapart path hpath input List.mem_cons_self
      rw [(hfirst.of_grows hfiles).lookup_eq hwrite', hlookup path hpath, hfirst.lookup_eq hwrite]
    obtain ⟨last', hrest'⟩ := ih (hgrows.trans (.of_write hwrite'))
      (fun path hpath other hother =>
        (hapart path (List.mem_cons_of_mem _ hpath) other (List.mem_cons_of_mem _ hother)).of_grows hgrowsFirst) hlookup'
    exact ⟨last', .written hrecords' hwrite' hrest'⟩
  | @failed files last input inputs cause written failed hcause hisolated hfatal _ ih =>
    have hcause' : HasFailure tokenizer again input cause := fun log =>
      fileRecords_congr (hlookup input List.mem_cons_self) tokenizer ▸ hcause log
    obtain ⟨last', hrest'⟩ := ih hgrows
      (fun path hpath other hother => hapart path (List.mem_cons_of_mem _ hpath) other (List.mem_cons_of_mem _ hother))
      fun path hpath => hlookup path (List.mem_cons_of_mem _ hpath)
    exact ⟨last', .failed hcause' hisolated hfatal hrest'⟩

/-- An input stops a run for what there is at each place. -/
theorem Stops.of_same {bad : String} {e : Error} (h : Stops tokenizer options output files bad e) (hsame : files.Same again) :
    Stops tokenizer options output again bad e := by
  have hrecords := fileRecords_congr (hsame.lookup_eq bad) tokenizer
  cases h with
  | file hcause hstops => exact .file (fun log => hrecords ▸ hcause log) hstops
  | write hrecords' hwrite => exact .write (fun log => hrecords ▸ hrecords' log) (hsame.write_eq_error hwrite)

theorem isDirectory_of_grows (h : files.Grows last) {path : String} (hpath : files.isDirectory path = true) :
    last.isDirectory path = true := by
  obtain ⟨place, hplace, hnode, -⟩ := list_of_isDirectory hpath
  rw [Tree.isDirectory, Tree.lookup_eq (h.place?_eq hplace), h.node?_directory hnode]
  rfl

/-- Inputs that were passed are passed again in any listing of the files that they left behind, which stay as they are. -/
theorem Passed.exists_relisted (h : Passed tokenizer options output files inputs written failed last)
    (hseparate : files.Separate input output) (houtput : files.isDirectory output = true)
    (hinput : files.isDirectory input = true) (hinputs : inputs ⊆ inputsIn files input) (hagain : last.Relisted again) :
    inputsIn again input = inputsIn files input ∧
      ∃ last', Passed tokenizer options output again inputs written failed last' ∧ last.Same last' := by
  have hwritten := h.toWritten
  have hmem {path : String} (hpath : path ∈ inputs) : path ∈ entryPaths files input :=
    mem_entryPaths_of_mem_inputsIn (hinputs hpath)
  have hmemWritten : ∀ w ∈ written, w.1.input ∈ entryPaths files input := fun w hw =>
    hmem (h.sublist_written.subset (List.mem_map_of_mem hw))
  have hlookup {path : String} (hpath : path ∈ entryPaths files input) : again.lookup path = files.lookup path :=
    (hagain.lookup_eq path).trans (hwritten.lookup_entry_eq hseparate houtput hinput hmemWritten hpath)
  have hentries := hwritten.entryPaths_eq hseparate houtput hinput hmemWritten
  refine ⟨inputsIn_eq (hentries ▸ entryPaths_perm hagain (isDirectory_of_grows hwritten.grows hinput)) fun _ => hlookup, ?_⟩
  obtain ⟨last', hpassed⟩ := h.exists_again hagain.grows
    (fun path hpath other hother =>
      (apart_of_mem_entryPaths hseparate houtput hinput (hmem hother)).1 path (hmem hpath))
    fun path hpath => hlookup (hmem hpath)
  exact ⟨last', hpassed, hagain.toSame.of_writeAll hwritten.writeAll hpassed.toWritten.writeAll⟩

/-- Where the directories are kept apart, a batch that is run again on the files that it has left behind, listed in any
order, comes to the same result but for the duration, and leaves the files as they are. -/
theorem run_again {result : Except Error Results} {next : Session} (hseparate : session.files.Separate input output)
    (h : (run tokenizer options input output duration).run session = (result, after))
    (hagain : after.files.Relisted next.files) (duration' : Duration) :
    ∃ last, (run tokenizer options input output duration').run next = (result.map ({ · with duration := duration' }), last) ∧
      ∀ place, last.files.node? place = after.files.node? place := by
  have hended := run_iff.mp ⟨after, h, rfl⟩
  suffices hagain : ∃ last, Ended tokenizer options input output duration' next.files
      (result.map ({ · with duration := duration' })) last ∧ after.files.Same last by
    obtain ⟨_, hended', hsame⟩ := hagain
    obtain ⟨last, hrun, rfl⟩ := hended'.exists_run
    exact ⟨last, hrun, hsame.node?_eq⟩
  generalize after.files = last at hended hagain ⊢
  generalize next.files = again at hagain ⊢
  have hdirectory {path : String} (hpath : last.isDirectory path = true) : again.isDirectory path = true :=
    isDirectory_of_grows hagain.grows hpath
  have hnone {path : String} (hpath : last.isDirectory path = false) : again.isDirectory path = false := by
    rwa [Tree.isDirectory, hagain.lookup_eq]
  cases hended with
  | noOutput houtput => exact ⟨again, .noOutput (hnone houtput), hagain.toSame⟩
  | noInput houtput hinput => exact ⟨again, .noInput (hdirectory houtput) (hnone hinput), hagain.toSame⟩
  | tooMany houtput hinput hmany =>
    have hinputs : inputsIn again input = inputsIn session.files input :=
      inputsIn_eq (entryPaths_perm hagain hinput) fun path _ => hagain.lookup_eq path
    refine ⟨again, ?_, hagain.toSame⟩
    rw [← hinputs] at hmany ⊢
    exact .tooMany (hdirectory houtput) (hdirectory hinput) hmany
  | stopped houtput hinput hfew hinputs hpassed hstops =>
    have hgrows := hpassed.toWritten.grows
    obtain ⟨hsame, last', hpassed', hlast⟩ := hpassed.exists_relisted hseparate houtput hinput
      (hinputs ▸ List.subset_append_left _ _) hagain
    rw [← hsame] at hfew hinputs
    exact ⟨last', .stopped (hdirectory (isDirectory_of_grows hgrows houtput)) (hdirectory (isDirectory_of_grows hgrows hinput))
      hfew hinputs hpassed' (hstops.of_same hlast), hlast⟩
  | finished houtput hinput hfew hpassed =>
    have hgrows := hpassed.toWritten.grows
    obtain ⟨hsame, last', hpassed', hlast⟩ := hpassed.exists_relisted hseparate houtput hinput
      (List.Subset.refl _) hagain
    rw [← hsame] at hfew hpassed' ⊢
    exact ⟨last', .finished (hdirectory (isDirectory_of_grows hgrows houtput)) (hdirectory (isDirectory_of_grows hgrows hinput))
      hfew hpassed', hlast⟩

theorem separate_threeInputs : threeInputs.files.Separate "in" "out" := by
  have hin : threeInputs.files.place? "in" = some ["in"] := by cbv
  have hout : threeInputs.files.place? "out" = some ["out"] := by cbv
  refine .of_no_links (fun place hplace => ?_) fun place target hlink => ?_
  · rw [hout, ← hplace, hin]
    decide
  · unfold Tree.node? Files.nodeAmong? at hlink
    split_ifs at hlink
    · cases hlink
    obtain ⟨e, he, hlink⟩ := Option.map_eq_some_iff.mp hlink
    have he := List.mem_of_find?_eq_some he
    simp only [threeInputs, List.mem_cons, List.not_mem_nil, or_false] at he
    rcases he with rfl | rfl | rfl | rfl | rfl <;> cases hlink

/-- The outputs of the three inputs are written once more, and the device fails once more, though the files are listed
backwards. -/
theorem run_again_threeInputs :
    ∃ results after last, (run wordTokenizer isolating "in" "out" .zero).run threeInputs = (.ok results, after) ∧
      results.successCount = 2 ∧ results.failed = [("in/b.py", .input (.notAFile "in/b.py"))] ∧
      (run wordTokenizer isolating "in" "out" ⟨1, 0⟩).run
        { after with files := after.files.listed after.files.nodes.reverse (List.reverse_perm _) } =
          (.ok { results with duration := ⟨1, 0⟩ }, last) ∧
      ∀ place, last.files.node? place = after.files.node? place := by
  have hended : Ended wordTokenizer isolating "in" "out" .zero threeInputs.files _ _ :=
    .finished (by cbv) (by cbv) (by rw [inputsIn_threeInputs]; decide) (by rw [inputsIn_threeInputs]; exact passed_threeInputs)
  obtain ⟨after, hrun, -⟩ := hended.exists_run
  have hagain := after.files.relisted_listed (List.reverse_perm _)
  obtain ⟨last, hlast, hsame⟩ :=
    @run_again _ _ _ _ _ _ _ _ ⟨_, after.log, after.shown⟩ separate_threeInputs hrun hagain ⟨1, 0⟩
  exact ⟨_, after, last, hrun, rfl, rfl, hlast, hsame⟩

end Lexeme.Batch
