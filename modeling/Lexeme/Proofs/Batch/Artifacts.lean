import Lexeme.Proofs.Batch.Run
import Mathlib

/-!
# The artifacts of a batch

A batch that succeeds has turned inputs into outputs one after the other, each from the files as they were then
(`Written`). An input that could not be tokenized changed no file. At the end an output holds what was last written to
its place: its own records, unless the output of a later input leads to the same place (`run_artifacts`). The names of
two outputs are the same exactly when the stems of the inputs are (`outputPath_eq_iff`).
-/

namespace Lexeme.Batch

open Files (Tree)

/-! ## The names of outputs -/

/-- The stem of the file name of a path. -/
def stem (path : String) : List Char := (Files.splitName ((Files.fileName? path).getD "").toList).1

theorem fileName?_getD_ne_dot (path : String) : (Files.fileName? path).getD "" ≠ "." := by
  cases hname : Files.fileName? path with
  | none => decide
  | some name =>
    obtain ⟨hlast, -⟩ := Option.filter_eq_some_iff.mp hname
    have hmem := (List.mem_filter.mp (List.mem_of_getLast? hlast)).2
    rintro (rfl : name = ".")
    simp at hmem

theorem splitName_fst_of_none {name : List Char} (h : (Files.splitName name).2 = none) : (Files.splitName name).1 = name := by
  unfold Files.splitName at h ⊢
  dsimp only at h ⊢
  split_ifs at h ⊢
  rfl

/-- A name without a proper stem gets the extension as a whole, any other in place of its own one. -/
theorem withExtension_eq {name : String} (hname : name ≠ ".") :
    Files.withExtension name "json" =
      if (Files.splitName name.toList).1 = ['.'] then ".." else String.ofList (Files.splitName name.toList).1 ++ ".json" := by
  have hjson (s : String) : s ++ "." ++ "json" = s ++ ".json" := by rw [String.append_assoc]; rfl
  cases hsplit : Files.splitName name.toList with
  | mk stem extension =>
    cases extension with
    | none =>
      have hstem : stem = name.toList := by simpa [hsplit] using @splitName_fst_of_none name.toList (by rw [hsplit])
      have hdot : stem ≠ ['.'] := by
        rintro rfl
        exact hname (String.ext hstem.symm)
      rw [Files.withExtension, hsplit]
      simp only [if_neg hdot, hjson]
      rw [hstem, String.ofList_toList]
    | some _ =>
      have hdots : String.ofList stem ++ "." = ".." ↔ stem = ['.'] := by
        rw [show ".." = "." ++ "." from rfl, String.append_left_inj, show "." = String.ofList ['.'] from rfl,
          String.ofList_inj]
      rw [Files.withExtension, hsplit]
      simp only [hdots, hjson]
      split_ifs with hdot
      · rw [hdot]
        rfl
      · rfl

/-- What ends with the extension is too long for two dots. -/
theorem ofList_json_ne_parent (stem : List Char) : String.ofList stem ++ ".json" ≠ ".." := by
  intro h
  have hlength := congrArg String.length h
  rw [String.length_append] at hlength
  rw [show "..".length = 2 from rfl, show ".json".length = 5 from rfl] at hlength
  omega

theorem withExtension_eq_iff {name other : String} (hname : name ≠ ".") (hother : other ≠ ".") :
    Files.withExtension name "json" = Files.withExtension other "json" ↔
      (Files.splitName name.toList).1 = (Files.splitName other.toList).1 := by
  rw [withExtension_eq hname, withExtension_eq hother]
  constructor
  · intro h
    split_ifs at h with hdot hdot' hdot'
    · rw [hdot, hdot']
    · exact absurd h.symm (ofList_json_ne_parent _)
    · exact absurd h (ofList_json_ne_parent _)
    · exact String.ofList_inj.mp ((String.append_left_inj _).mp h)
  · intro h
    rw [h]

theorem join_inj {directory name other : String} : Files.join directory name = Files.join directory other ↔ name = other := by
  unfold Files.join
  split_ifs
  · exact String.append_right_inj _
  · exact String.append_right_inj _

/-- Two inputs have the same output exactly when their stems are the same. -/
theorem outputPath_eq_iff {input other directory : String} :
    outputPath input directory = outputPath other directory ↔ stem input = stem other := by
  rw [outputPath, outputPath, join_inj, outputName, outputName]
  exact withExtension_eq_iff (fileName?_getD_ne_dot input) (fileName?_getD_ne_dot other)

/-! ## The outputs of a run -/

variable {tokenizer : Tokenizer} {options : Options} {directory : String} {session after : Session}

/-- The outcomes of inputs that are turned into outputs one after the other, with the records of each, and the files
before and after. -/
inductive Written (tokenizer : Tokenizer) (directory : String) : Tree → List (Outcome × List Record) → Tree → Prop
  | nil (files : Tree) : Written tokenizer directory files [] files
  | cons {files mid last : Tree} {input : String} {records : List Record} {rest : List (Outcome × List Record)}
      (hrecords : HasRecords tokenizer files input records)
      (hwrite : files.write (outputPath input directory) (artifactBytes records) = .ok mid)
      (hrest : Written tokenizer directory mid rest last) :
      Written tokenizer directory files ((⟨input, outputPath input directory, records.length⟩, records) :: rest) last

theorem Passed.toWritten {files last : Tree} {inputs : List String} {written : List (Outcome × List Record)}
    {failed : List (String × TokenizingError)} (h : Passed tokenizer options directory files inputs written failed last) :
    Written tokenizer directory files written last := by
  induction h with
  | nil files => exact .nil files
  | written hrecords hwrite _ ih => exact .cons hrecords hwrite ih
  | failed _ _ _ _ ih => exact ih

theorem Passed.length_add {files last : Tree} {inputs : List String} {written : List (Outcome × List Record)}
    {failed : List (String × TokenizingError)} (h : Passed tokenizer options directory files inputs written failed last) :
    written.length + failed.length = inputs.length := by
  induction h with
  | nil files => rfl
  | written _ _ _ ih => simp only [List.length_cons]; omega
  | failed _ _ _ _ ih => simp only [List.length_cons]; omega

theorem Written.passed {files last : Tree} {written : List (Outcome × List Record)}
    (h : Written tokenizer directory files written last) (options : Options) :
    Passed tokenizer options directory files (written.map (·.1.input)) written [] last := by
  induction h with
  | nil files => exact .nil files
  | cons hrecords hwrite _ ih => exact .written hrecords hwrite ih

/-- A batch that succeeds has turned inputs into outputs one after the other. -/
theorem exists_written_of_run {input output : String} {duration : Duration} {results : Results}
    (h : (run tokenizer options input output duration).run session = (.ok results, after)) :
    ∃ written, Written tokenizer output session.files written after.files ∧ written.map Prod.fst = results.completed ∧
      results.successCount + results.failureCount = results.discovered := by
  cases run_iff.mp ⟨after, h, rfl⟩ with
  | finished _ _ _ hpassed =>
    exact ⟨_, hpassed.toWritten, rfl, by simpa [Results.successCount, Results.failureCount] using hpassed.length_add⟩

theorem Written.output_eq {files last : Tree} {written : List (Outcome × List Record)}
    (h : Written tokenizer directory files written last) {w : Outcome × List Record} (hw : w ∈ written) :
    w.1.output = outputPath w.1.input directory := by
  induction h with
  | nil => cases hw
  | cons _ _ _ ih =>
    rcases List.mem_cons.mp hw with rfl | hw
    · rfl
    · exact ih hw

/-- A batch whose inputs can be turned into outputs one after the other succeeds. -/
theorem Written.exists_run {input output : String} {log : Log} {last : Tree} {written : List (Outcome × List Record)}
    (h : Written tokenizer output session.files written last) (houtput : session.files.isDirectory output = true)
    (hpaths : ((discover options session.files input).run log).1 = .ok (written.map (·.1.input))) (duration : Duration) :
    ∃ results after, (run tokenizer options input output duration).run session = (.ok results, after) ∧
      results.completed = written.map Prod.fst ∧ after.files = last := by
  rw [discover_run_fst] at hpaths
  split_ifs at hpaths with hinput hmany
  have hpassed := h.passed options
  rw [← Except.ok.inj hpaths] at hpassed
  have hended : Ended tokenizer options input output duration session.files _ _ :=
    .finished houtput (by simpa using hinput) (Nat.le_of_not_lt hmany) hpassed
  obtain ⟨after, hrun, hlast⟩ := hended.exists_run
  exact ⟨_, after, hrun, rfl, hlast⟩

theorem Written.unique {files last last' : Tree} {written written' : List (Outcome × List Record)}
    (h : Written tokenizer directory files written last) (h' : Written tokenizer directory files written' last')
    (heq : written.map Prod.fst = written'.map Prod.fst) : written = written' := by
  induction h generalizing written' with
  | nil =>
    rw [List.map_nil, eq_comm, List.map_eq_nil_iff] at heq
    exact heq.symm
  | cons hrecords hwrite _ ih =>
    cases h' with
    | nil => cases heq
    | cons hrecords' hwrite' hrest' =>
      obtain ⟨houtcome, hrest⟩ := List.cons.inj heq
      obtain rfl := congrArg Outcome.input houtcome
      obtain rfl := hrecords.eq hrecords'
      obtain rfl := Except.ok.inj (hwrite.symm.trans hwrite')
      rw [ih hrest' hrest]

/-! ## What outputs hold -/

/-- The path and the content of an output that has been written. -/
def writeOf (w : Outcome × List Record) : String × ByteArray := (w.1.output, artifactBytes w.2)

theorem Written.writeAll {files last : Tree} {written : List (Outcome × List Record)}
    (h : Written tokenizer directory files written last) : files.writeAll (written.map writeOf) = .ok last := by
  induction h with
  | nil files => rfl
  | @cons files mid last input records rest _ hwrite _ ih =>
    show ((files.write (outputPath input directory) (artifactBytes records)).bind fun t => t.writeAll (rest.map writeOf)) = _
    rw [hwrite]
    exact ih

/-- The last of some outputs that leads to the same place as a path. -/
def lastAt? (files : Tree) (path : String) (written : List (Outcome × List Record)) : Option (Outcome × List Record) :=
  (written.filter fun w => files.place? w.1.output = files.place? path).getLast?

theorem lastWritten?_map (files : Tree) (path : String) (written : List (Outcome × List Record)) :
    files.lastWritten? path (written.map writeOf) = (lastAt? files path written).map fun w => artifactBytes w.2 := by
  rw [Tree.lastWritten?, lastAt?, List.filter_map, List.getLast?_map, Option.map_map]
  rfl

theorem artifactBytes_inj {records other : List Record} :
    artifactBytes records = artifactBytes other ↔ Record.artifact records = Record.artifact other :=
  String.toByteArray_inj

theorem artifactBytes_ne_empty (records : List Record) : artifactBytes records ≠ .empty := by
  intro h
  have hempty : Record.artifact records = "" := String.toByteArray_eq_empty_iff.mp h
  cases records with
  | nil => revert hempty; decide
  | cons r records =>
    have hopen := (String.append_eq_empty_iff.mp (String.append_eq_empty_iff.mp hempty).1).1
    revert hopen
    decide

/-- An output holds its own artifact exactly when it is no device and the last output at its place has the same one. -/
theorem Written.read_eq_iff {files last : Tree} {written : List (Outcome × List Record)}
    (h : Written tokenizer directory files written last) {w : Outcome × List Record} (hw : w ∈ written) :
    last.read w.1.output = .ok (artifactBytes w.2) ↔
      last.lookup w.1.output ≠ .ok .device ∧
        ∃ v, lastAt? last w.1.output written = some v ∧ Record.artifact v.2 = Record.artifact w.2 := by
  obtain ⟨place, hplace, hnode⟩ := Tree.node?_writeAll h.writeAll (writeOf w) (List.mem_map_of_mem hw)
  have hlookup : last.lookup w.1.output = _ := Tree.lookup_eq hplace
  rw [Tree.read, hlookup]
  rcases hnode with hdevice | ⟨content, hcontent, hfile⟩
  · rw [hdevice]
    refine iff_of_false (fun h => ?_) fun h => h.1 rfl
    exact artifactBytes_ne_empty w.2 (Except.ok.inj h).symm
  · rw [hfile]
    rw [lastWritten?_map] at hcontent
    obtain ⟨v, hv, rfl⟩ := Option.map_eq_some_iff.mp hcontent
    constructor
    · intro h
      exact ⟨by simp, v, hv, artifactBytes_inj.mp (Except.ok.inj h)⟩
    · rintro ⟨-, u, hu, hartifact⟩
      obtain rfl := Option.some.inj (hv.symm.trans hu)
      exact congrArg Except.ok (artifactBytes_inj.mpr hartifact)

/-- A batch that succeeds has turned inputs into outputs one after the other, and has recorded each other input as failed.
An output holds the artifact of its own input, unless it is a device or another artifact was written to its place later.
Two outputs have the same path exactly when their inputs have the same stem. -/
theorem run_artifacts {input output : String} {duration : Duration} {results : Results}
    (h : (run tokenizer options input output duration).run session = (.ok results, after)) :
    ∃ written, Written tokenizer output session.files written after.files ∧ written.map Prod.fst = results.completed ∧
      results.successCount + results.failureCount = results.discovered ∧
      ∀ w ∈ written,
        (after.files.read w.1.output = .ok (Record.artifact w.2).toUTF8 ↔
          after.files.lookup w.1.output ≠ .ok .device ∧
            ∃ v, lastAt? after.files w.1.output written = some v ∧ Record.artifact v.2 = Record.artifact w.2) ∧
        ∀ v ∈ written, w.1.output = v.1.output ↔ stem w.1.input = stem v.1.input := by
  obtain ⟨written, hwritten, hcompleted, hcount⟩ := exists_written_of_run h
  refine ⟨written, hwritten, hcompleted, hcount, fun w hw => ⟨hwritten.read_eq_iff hw, fun v hv => ?_⟩⟩
  rw [hwritten.output_eq hw, hwritten.output_eq hv]
  exact outputPath_eq_iff

/-- Takes every text as one word. -/
def wordTokenizer : Tokenizer where
  engine := ⟨"words", Vocabulary.empty.define ⟨none, some "WORD"⟩, fun text => .ok [⟨text, 1, defaultChannel, .start⟩]⟩
  table := ⟨[]⟩

theorem HasRecords.of_word {files : Tree} {path text : String} (h : files.lookup path = .ok (.file text.toUTF8))
    (hsize : text.toUTF8.size ≤ Files.inputLimit) : HasRecords wordTokenizer files path [⟨"WORD", text⟩] :=
  .of_lookup h hsize fun _ => rfl

/-- Two inputs with the same stem, and a directory for the outputs. -/
def twoInputs : Session where
  files := ⟨[(["in"], .directory), (["in", "a.py"], .file "hello".toUTF8), (["in", "a.txt"], .file "world".toUTF8),
    (["out"], .directory)], [], by decide⟩
  log := .empty .error
  shown := []

/-- The outputs of the two inputs, one after the other. -/
theorem written_twoInputs : ∃ last, Written wordTokenizer "out" twoInputs.files
    [(⟨"in/a.py", "out/a.json", 1⟩, [⟨"WORD", "hello"⟩]), (⟨"in/a.txt", "out/a.json", 1⟩, [⟨"WORD", "world"⟩])] last := by
  have hname : outputPath "in/a.py" "out" = "out/a.json" := by cbv
  have hname' : outputPath "in/a.txt" "out" = "out/a.json" := by cbv
  have hplace : twoInputs.files.place? "out/a.json" = some ["out", "a.json"] := by cbv
  have haccepts : twoInputs.files.Accepts ["out", "a.json"] := by decide
  let first (content : ByteArray) : Tree := twoInputs.files.put ["out", "a.json"] (.file content)
  have hwrite (content : ByteArray) : twoInputs.files.write (outputPath "in/a.py" "out") content = .ok (first content) :=
    hname ▸ Tree.write_of_vacant hplace (by cbv) content
  have hagain (old content : ByteArray) : (first old).write (outputPath "in/a.txt" "out") content =
      .ok ((first old).put ["out", "a.json"] (.file content)) := by
    rw [hname', Tree.write_eq ((Tree.Grows.of_write (hwrite old)).place?_eq hplace), Tree.node?_put haccepts, if_pos rfl]
  have hrecords : HasRecords wordTokenizer twoInputs.files "in/a.py" [⟨"WORD", "hello"⟩] :=
    .of_word (by cbv) (by decide +kernel)
  have hrecords' (old : ByteArray) : HasRecords wordTokenizer (first old) "in/a.txt" [⟨"WORD", "world"⟩] := by
    have hother : twoInputs.files.place? "in/a.txt" = some ["in", "a.txt"] := by cbv
    refine .of_word ((Tree.lookup_of_write (hwrite old) hother ?_).trans (by cbv)) (by decide +kernel)
    rw [hname, hplace]
    decide
  have hboth := Written.cons hrecords (hwrite _) (.cons (hrecords' _) (hagain _ _) (.nil _))
  rw [hname, hname'] at hboth
  exact ⟨_, hboth⟩

/-- The artifact of an input is lost when a later input has the same stem. -/
theorem run_artifacts_twoInputs :
    ∃ results after, (run wordTokenizer .default "in" "out" .zero).run twoInputs = (.ok results, after) ∧
      results.completed = [⟨"in/a.py", "out/a.json", 1⟩, ⟨"in/a.txt", "out/a.json", 1⟩] ∧
      after.files.read "out/a.json" ≠ .ok (Record.artifact [⟨"WORD", "hello"⟩]).toUTF8 := by
  obtain ⟨last, hwritten⟩ := written_twoInputs
  obtain ⟨results, after, hrun, hcompleted, -⟩ := @Written.exists_run wordTokenizer .default twoInputs "in" "out"
    (.empty .error) _ _ hwritten (by cbv) (by cbv) .zero
  obtain ⟨found, hfound, hinputs, -, hholds⟩ := run_artifacts hrun
  obtain rfl := hfound.unique hwritten (hinputs.trans hcompleted)
  refine ⟨results, after, hrun, hcompleted, fun hread => ?_⟩
  obtain ⟨-, v, hv, hartifact⟩ := (hholds _ List.mem_cons_self).1.mp hread
  -- the second output is the last at the place of both
  obtain rfl : (_, _) = v := by simpa [lastAt?] using hv
  revert hartifact
  decide +kernel

end Lexeme.Batch
