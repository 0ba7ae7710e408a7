import Lexeme.Proofs.Batch.Failures
import Lexeme.Proofs.Files.Without
import Mathlib.Data.List.Nodup

/-!
# Batches that isolate failures

A batch that isolates failures fails only on a missing substitution or on an artifact that cannot be written. Otherwise it
parts the inputs into those that it has completed and those that have failed, and it does what a batch does that does not
isolate failures when the failed inputs have been taken away before (`run_isolates`). The latter needs that the failed
inputs are on nobody's way (`Detached`), as files and devices always are; a link that leads nowhere at its turn can lead
another input to an output that is written later (`linkedInputs_disagree`).
-/

namespace Lexeme.Batch

open Files (Tree Place)

variable {tokenizer : Tokenizer} {options : Options} {input output : String} {duration : Duration} {session : Session}
  {files last : Tree} {inputs : List String} {written : List (Outcome × List Record)}
  {failed : List (String × TokenizingError)}

/-! ## What a run passes -/

theorem Passed.perm (h : Passed tokenizer options output files inputs written failed last) :
    (written.map (·.1.input) ++ failed.map Prod.fst).Perm inputs := by
  induction h with
  | nil => exact .nil
  | written _ _ _ ih => exact ih.cons _
  | failed _ _ _ _ ih => exact List.perm_middle.trans (ih.cons _)

theorem Passed.sublist_written (h : Passed tokenizer options output files inputs written failed last) :
    (written.map (·.1.input)).Sublist inputs := by
  induction h with
  | nil => exact .slnil
  | written _ _ _ ih => exact ih.cons_cons _
  | failed _ _ _ _ ih => exact ih.cons _

theorem Passed.sublist_failed (h : Passed tokenizer options output files inputs written failed last) :
    (failed.map Prod.fst).Sublist inputs := by
  induction h with
  | nil => exact .slnil
  | written _ _ _ ih => exact ih.cons _
  | failed _ _ _ _ ih => exact ih.cons_cons _

/-- The inputs that have not failed have been turned into outputs. -/
theorem Passed.filter_eq (h : Passed tokenizer options output files inputs written failed last) (hdistinct : inputs.Nodup) :
    inputs.filter (· ∉ failed.map Prod.fst) = written.map (·.1.input) := by
  induction h with
  | nil => rfl
  | @written files mid last input inputs records written failed _ _ hrest ih =>
    obtain ⟨hnew, hdistinct⟩ := List.nodup_cons.mp hdistinct
    have hkept : input ∉ failed.map Prod.fst := fun hmem => hnew (hrest.sublist_failed.subset hmem)
    rw [List.filter_cons_of_pos (by simpa using hkept), ih hdistinct]
    rfl
  | @failed files last input inputs cause written failed _ _ _ hrest ih =>
    obtain ⟨hnew, hdistinct⟩ := List.nodup_cons.mp hdistinct
    rw [List.filter_cons_of_neg (by simp), ← ih hdistinct]
    refine List.filter_congr fun path hpath => ?_
    have hne : path ≠ input := fun heq => hnew (heq ▸ hpath)
    simp [hne]

/-- An input that has failed did so at its turn, for a reason that isolation is for. -/
theorem Passed.exists_hasFailure (h : Passed tokenizer options output files inputs written failed last) :
    ∀ x ∈ failed, ∃ before rest mid, written = before ++ rest ∧ Written tokenizer output files before mid ∧
      Written tokenizer output mid rest last ∧ HasFailure tokenizer mid x.1 x.2 ∧ x.2.isFatal = false := by
  induction h with
  | nil => nofun
  | written hrecords hwrite _ ih =>
    intro x hx
    obtain ⟨before, rest, mid, rfl, hbefore, hrest, hcause, hfatal⟩ := ih x hx
    exact ⟨_ :: before, rest, mid, rfl, .cons hrecords hwrite hbefore, hrest, hcause, hfatal⟩
  | failed hcause _ hfatal hrest ih =>
    intro x hx
    rcases List.mem_cons.mp hx with rfl | hx
    · exact ⟨[], _, _, rfl, .nil _, hrest.toWritten, hcause, hfatal⟩
    · exact ih x hx

/-- An input that no output leads to failed at its turn exactly if it fails at the beginning. -/
theorem Passed.mem_failed_iff (h : Passed tokenizer options output files inputs written failed last) {path : String}
    (hpath : path ∈ inputs) (huntouched : Untouched files last written path) (cause : TokenizingError) :
    (path, cause) ∈ failed ↔ HasFailure tokenizer files path cause := by
  have hfails {cause : TokenizingError} (hx : (path, cause) ∈ failed) : HasFailure tokenizer files path cause := by
    obtain ⟨before, rest, mid, rfl, hbefore, hrest, hcause, -⟩ := h.exists_hasFailure _ hx
    obtain ⟨place, hplace, hother⟩ := huntouched
    have hmid : Untouched files mid before path :=
      ⟨place, hplace, fun w hw hsame => hother w (List.mem_append_left _ hw) (hrest.grows.place?_eq hsame)⟩
    intro log
    rw [← hbefore.fileRecords_eq hmid]
    exact hcause log
  refine ⟨hfails, fun hcause => ?_⟩
  rcases List.mem_append.mp (h.perm.mem_iff.mpr hpath) with hmem | hmem
  · obtain ⟨w, hw, rfl⟩ := List.mem_map.mp hmem
    exact ((h.toWritten.hasRecords w hw huntouched).not_hasFailure hcause).elim
  · obtain ⟨⟨_, other⟩, hx, rfl⟩ := List.mem_map.mp hmem
    rwa [hcause.eq (hfails hx)]

/-! ## Directories without some of their entries -/

/-- Whether a place is that of an entry of a directory with one of the given paths. -/
def isEntry (files : Tree) (directory : String) (paths : List String) (place : Place) : Bool :=
  match files.place? directory, place.getLast? with
  | some parent, some name => place.dropLast = parent && paths.contains (Files.join directory name)
  | _, _ => false

/-- The files without the entries of a directory that have the given paths. -/
def withoutEntries (files : Tree) (directory : String) (paths : List String) : Tree :=
  files.without (isEntry files directory paths)

theorem isEntry_eq_true_iff {directory : String} {paths : List String} {place : Place} :
    isEntry files directory paths place = true ↔ ∃ parent name, files.place? directory = some parent ∧
      place = parent ++ [name] ∧ Files.join directory name ∈ paths := by
  unfold isEntry
  constructor
  · intro h
    split at h
    · next parent name hparent hlast =>
      obtain ⟨hdrop, hmem⟩ := Bool.and_eq_true_iff.mp h
      refine ⟨parent, name, hparent, ?_, List.contains_iff_mem.mp hmem⟩
      rw [← of_decide_eq_true hdrop]
      exact (List.dropLast_append_getLast? _ hlast).symm
    · cases h
  · rintro ⟨parent, name, hparent, rfl, hmem⟩
    simp [hparent, hmem]

theorem isEntry_concat {directory : String} {parent : Place} (hparent : files.place? directory = some parent)
    (paths : List String) (name : String) :
    isEntry files directory paths (parent ++ [name]) = paths.contains (Files.join directory name) := by
  simp [isEntry, hparent]

/-- Outside of the directory nothing is taken away. -/
theorem isEntry_eq_false {directory : String} {parent other : Place} (hparent : files.place? directory = some parent)
    (hother : parent ≠ other) (paths : List String) (name : String) :
    isEntry files directory paths (other ++ [name]) = false := by
  simp [isEntry, hparent, Ne.symm hother]

theorem Written.isEntry_eq (h : Written tokenizer output files written last) {directory : String} {parent : Place}
    (hparent : files.place? directory = some parent) (paths : List String) :
    isEntry last directory paths = isEntry files directory paths := by
  unfold isEntry
  rw [hparent, h.grows.place?_eq hparent]

/-- Outputs that lead past what is gone are written just the same without it. -/
theorem Written.without {gone : Place → Bool} (h : Written tokenizer output files written last)
    (hpast : ∀ w ∈ written, files.LeadsPast gone w.1.input ∧ files.LeadsPast gone w.1.output) :
    Written tokenizer output (files.without gone) written (last.without gone) := by
  induction h with
  | nil files => exact .nil _
  | @cons files mid last input records rest hrecords hwrite _ ih =>
    obtain ⟨hinput, houtput⟩ := hpast _ List.mem_cons_self
    have hwrite' := houtput.write hwrite
    refine .cons (fun log => ?_) hwrite' (ih fun w hw => ?_)
    · rw [fileRecords_congr hinput.lookup_eq]
      exact hrecords log
    · obtain ⟨hinput, houtput⟩ := hpast w (List.mem_cons_of_mem _ hw)
      have hgrows := Tree.Grows.of_write hwrite
      have hgrows' := Tree.Grows.of_write hwrite'
      exact ⟨hinput.of_grows hgrows hgrows', houtput.of_grows hgrows hgrows'⟩

section

variable {paths : List String} (hdirectory : files.isDirectory input = true)
  (hinput : files.LeadsPast (isEntry files input paths) input)
  (hentries : ∀ path ∈ entryPaths files input, path ∉ paths → files.LeadsPast (isEntry files input paths) path)

include hdirectory hinput

theorem entryPaths_withoutEntries :
    entryPaths (withoutEntries files input paths) input = (entryPaths files input).filter (· ∉ paths) := by
  obtain ⟨parent, hparent, -, hlist⟩ := list_of_isDirectory hdirectory
  obtain ⟨parent', hparent', -, hlist'⟩ := list_of_isDirectory (hinput.isDirectory_eq.trans hdirectory)
  obtain ⟨place, hplace, hplace', hkept⟩ := hinput.exists_kept
  obtain rfl := Option.some.inj (hparent.symm.trans hplace)
  obtain rfl := Option.some.inj (hplace'.symm.trans hparent')
  rw [entryPaths, entryPaths, withoutEntries, hlist, hlist', Tree.namesAt_without files hkept]
  simp only [Except.toOption, Option.getD_some, isEntry_concat hparent, List.filter_map]
  refine congrArg (List.map _) (List.filter_congr fun name _ => ?_)
  simp

include hentries

/-- Without some entries the inputs are the others. -/
theorem inputsIn_withoutEntries :
    inputsIn (withoutEntries files input paths) input = (inputsIn files input).filter (· ∉ paths) := by
  have hperm : (inputsIn (withoutEntries files input paths) input).Perm ((inputsIn files input).filter (· ∉ paths)) := by
    refine (List.mergeSort_perm _ _).trans (.trans ?_ ((List.mergeSort_perm _ _).filter _).symm)
    rw [entryPaths_withoutEntries hdirectory hinput, List.filter_filter, List.filter_filter]
    refine .of_eq (List.filter_congr fun path hpath => ?_)
    by_cases hgone : path ∈ paths
    · simp [hgone]
    · simp [hgone, withoutEntries, (hentries path hpath hgone).isDirectory_eq]
  exact hperm.eq_of_pairwise (fun _ _ _ _ => le_antisymm) (pairwise_inputsIn _ _) ((pairwise_inputsIn _ _).filter _)

end

/-! ## Distinct inputs -/

theorem nodup_namesAt (files : Tree) (place : Place) : (files.namesAt place).Nodup := by
  have hplace {e : Place × Files.Node} {name : String} (h : name ∈ Files.namesAmong [e] place) : e.1 = place ++ [name] := by
    obtain ⟨node, hmem⟩ := Files.exists_node_of_mem_namesAmong h
    rw [← List.mem_singleton.mp hmem]
  refine (List.pairwise_map.mp files.isProper.distinct).filterMap _ fun e e' hne name hname other hother => ?_
  have hname := hplace (List.mem_filterMap.mpr ⟨e, List.mem_singleton_self e, hname⟩)
  have hother := hplace (List.mem_filterMap.mpr ⟨e', List.mem_singleton_self e', hother⟩)
  rintro rfl
  exact hne (hname.trans hother.symm)

/-- No input comes twice. -/
theorem nodup_inputsIn (files : Tree) (directory : String) : (inputsIn files directory).Nodup := by
  refine (List.mergeSort_perm _ _).nodup_iff.mpr (.filter _ ?_)
  unfold entryPaths
  cases hlist : files.list directory with
  | error failure => exact .nil
  | ok names =>
    refine List.Nodup.map (fun name other => join_inj.mp) ?_
    unfold Tree.list at hlist
    split at hlist
    · cases hlist
    · obtain rfl := Except.ok.inj hlist
      exact nodup_namesAt files _
    · cases hlist
    · cases hlist

/-! ## Batches that isolate failures -/

/-- What no later input can recover from is a missing substitution. -/
theorem HasFailure.exists_literal {path : String} {cause : TokenizingError} (h : HasFailure tokenizer files path cause)
    (hfatal : cause.isFatal = true) : ∃ literal, cause = .substitution (.missingEntry literal) := by
  cases cause with
  | input => cases hfatal
  | lexing => cases hfatal
  | substitution e =>
    have hrun := h (.empty .error)
    unfold Tokenizer.fileRecords at hrun
    rw [Logged.run_bind_fst] at hrun
    cases hread : ((Files.readInput files path).run (.empty .error)).1 with
    | error failure =>
      rw [hread] at hrun
      cases hrun
    | ok source =>
      rw [hread] at hrun
      obtain ⟨tokens, -, token, -, -, herror⟩ := Tokenizer.exists_token_of_error hrun
      obtain ⟨-, hmissing⟩ := Token.record_eq_error_iff.mp herror
      obtain ⟨rfl, -, -⟩ := Substitutions.normalized_eq_error_iff.mp hmissing
      exact ⟨_, rfl⟩

/-- Whether the entries of the input directory with the given paths are on nobody's way: without them the two directories,
the other entries and the outputs are where they were. -/
structure Detached (files : Tree) (input output : String) (paths outputs : List String) : Prop where
  ofInput : files.LeadsPast (isEntry files input paths) input
  ofOutput : files.LeadsPast (isEntry files input paths) output
  ofEntries : ∀ path ∈ entryPaths files input, path ∉ paths → files.LeadsPast (isEntry files input paths) path
  ofOutputs : ∀ path ∈ outputs, files.LeadsPast (isEntry files input paths) path

/-- Inputs that have failed can be taken away before a run that passes the others. -/
theorem Passed.ended_withoutEntries (h : Passed tokenizer options output files (inputsIn files input) written failed last)
    (hinput : files.isDirectory input = true) (houtput : files.isDirectory output = true)
    (hfew : (inputsIn files input).length ≤ options.fileLimit)
    (hdetached : Detached files input output (failed.map Prod.fst) (written.map (·.1.output))) (other : Options)
    (hlimit : other.fileLimit = options.fileLimit) (duration : Duration) :
    Ended tokenizer other input output duration (withoutEntries files input (failed.map Prod.fst))
      (.ok ⟨written.map Prod.fst, [], written.length, duration⟩) (withoutEntries last input (failed.map Prod.fst)) := by
  obtain ⟨parent, hparent, -, -⟩ := list_of_isDirectory hinput
  have hothers := h.filter_eq (nodup_inputsIn files input)
  have hinputs : inputsIn (withoutEntries files input (failed.map Prod.fst)) input = written.map (·.1.input) :=
    (inputsIn_withoutEntries hinput hdetached.ofInput hdetached.ofEntries).trans hothers
  have hpast : ∀ w ∈ written, files.LeadsPast (isEntry files input (failed.map Prod.fst)) w.1.input ∧
      files.LeadsPast (isEntry files input (failed.map Prod.fst)) w.1.output := by
    intro w hw
    have hmem : w.1.input ∈ (inputsIn files input).filter (· ∉ failed.map Prod.fst) := by
      rw [hothers]
      exact List.mem_map_of_mem hw
    obtain ⟨hmem, hkept⟩ := List.mem_filter.mp hmem
    have hentry := (List.mem_filter.mp ((List.mergeSort_perm _ _).mem_iff.mp hmem)).1
    exact ⟨hdetached.ofEntries _ hentry (by simpa using hkept), hdetached.ofOutputs _ (List.mem_map_of_mem hw)⟩
  have hwritten := (h.toWritten.without hpast).passed other
  have hlast : withoutEntries last input (failed.map Prod.fst) = last.without (isEntry files input (failed.map Prod.fst)) := by
    rw [withoutEntries, h.toWritten.isEntry_eq hparent]
  have hended : Ended tokenizer other input output duration (withoutEntries files input (failed.map Prod.fst)) _ _ :=
    .finished (hdetached.ofOutput.isDirectory_eq.trans houtput) (hdetached.ofInput.isDirectory_eq.trans hinput)
      (by rw [hinputs, List.length_map, hlimit]; exact le_trans (by simpa using h.sublist_written.length_le) hfew)
      (hinputs ▸ hwritten)
  rw [hlast]
  simpa [hinputs] using hended

/-- What a batch that isolates failures comes to. -/
structure IsolatesFailures (tokenizer : Tokenizer) (options : Options) (input output : String) (duration : Duration)
    (session : Session) : Prop where
  ascending : (inputsIn session.files input).Pairwise (· ≤ ·)
  /-- It fails exactly on the first input with a missing substitution or an artifact that cannot be written. -/
  fails_iff (e : Error) (last : Tree) :
    (∃ after, (run tokenizer options input output duration).run session = (.error e, after) ∧ after.files = last) ↔
      ∃ done bad rest written failed, inputsIn session.files input = done ++ bad :: rest ∧
        Passed tokenizer options output session.files done written failed last ∧
        session.files.writeAll (written.map writeOf) = .ok last ∧
        ((∃ literal, HasFailure tokenizer last bad (.substitution (.missingEntry literal)) ∧
            e = .file bad (.substitution (.missingEntry literal))) ∨
          ∃ records failure, HasRecords tokenizer last bad records ∧
            last.write (outputPath bad output) (artifactBytes records) = .error failure ∧
            e = .outputWrite (outputPath bad output) failure.message)
  /-- Otherwise each input has been completed or has failed, at its turn. -/
  passes (results : Results) (after : Session)
    (h : (run tokenizer options input output duration).run session = (.ok results, after)) :
    ∃ written, Passed tokenizer options output session.files (inputsIn session.files input) written results.failed after.files ∧
      written.map Prod.fst = results.completed ∧
      ∀ path ∈ inputsIn session.files input, Untouched session.files after.files written path →
        ∀ cause, (path, cause) ∈ results.failed ↔ HasFailure tokenizer session.files path cause
  partitions (results : Results) (after : Session)
    (h : (run tokenizer options input output duration).run session = (.ok results, after)) :
    (results.completed.map Outcome.input ++ results.failed.map Prod.fst).Perm (inputsIn session.files input) ∧
      (results.completed.map Outcome.input).Sublist (inputsIn session.files input) ∧
      (results.failed.map Prod.fst).Sublist (inputsIn session.files input)
  /-- A batch that does not isolate failures does the same if the failed inputs are taken away before, unless these are
  on somebody's way. -/
  agrees (results : Results) (after strict : Session)
    (h : (run tokenizer options input output duration).run session = (.ok results, after))
    (hdetached : Detached session.files input output (results.failed.map Prod.fst) (results.completed.map Outcome.output))
    (hstrict : strict.files = withoutEntries session.files input (results.failed.map Prod.fst)) :
    ∃ results' after',
      (run tokenizer { options with isolateFailures := false } input output duration).run strict = (.ok results', after') ∧
      results'.completed = results.completed ∧ results'.failed = [] ∧
      after'.files = withoutEntries after.files input (results.failed.map Prod.fst) ∧
      ∀ place, session.files.place? output = some place →
        ∀ name, after'.files.node? (place ++ [name]) = after.files.node? (place ++ [name])

theorem run_isolates (hisolate : options.isolateFailures = true) (hinput : session.files.isDirectory input = true)
    (houtput : session.files.isDirectory output = true)
    (hdiffer : session.files.place? input ≠ session.files.place? output)
    (hfew : (inputsIn session.files input).length ≤ options.fileLimit) :
    IsolatesFailures tokenizer options input output duration session := by
  have hfinished {results : Results} {after : Session}
      (h : (run tokenizer options input output duration).run session = (.ok results, after)) :
      ∃ written, Passed tokenizer options output session.files (inputsIn session.files input) written results.failed
        after.files ∧ written.map Prod.fst = results.completed := by
    cases run_iff.mp ⟨after, h, rfl⟩ with
    | finished _ _ _ hpassed => exact ⟨_, hpassed, rfl⟩
  refine ⟨pairwise_inputsIn _ _, fun e last => run_iff.trans ⟨fun hended => ?_, ?_⟩, fun results after h => ?_,
    fun results after h => ?_, fun results after strict h hdetached hstrict => ?_⟩
  · cases hended with
    | noOutput hno => simp [houtput] at hno
    | noInput _ hno => simp [hinput] at hno
    | tooMany _ _ hmany => omega
    | @stopped done rest bad written failed _ _ _ _ _ hinputs hpassed hstops =>
      refine ⟨done, bad, rest, written, failed, hinputs, hpassed, hpassed.toWritten.writeAll, ?_⟩
      cases hstops with
      | file hcause hstops =>
        obtain ⟨literal, rfl⟩ := hcause.exists_literal (hstops.resolve_left (by simp [hisolate]))
        exact .inl ⟨literal, hcause, rfl⟩
      | write hrecords hwrite => exact .inr ⟨_, _, hrecords, hwrite, rfl⟩
  · rintro ⟨done, bad, rest, written, failed, hinputs, hpassed, -, hbad⟩
    refine .stopped houtput hinput hfew hinputs hpassed ?_
    rcases hbad with ⟨literal, hcause, rfl⟩ | ⟨records, failure, hrecords, hwrite, rfl⟩
    · exact .file hcause (.inr rfl)
    · exact .write hrecords hwrite
  · obtain ⟨written, hpassed, hcompleted⟩ := hfinished h
    exact ⟨written, hpassed, hcompleted, fun path hpath huntouched cause => hpassed.mem_failed_iff hpath huntouched cause⟩
  · obtain ⟨written, hpassed, hcompleted⟩ := hfinished h
    have hinputs : results.completed.map Outcome.input = written.map (·.1.input) := by
      rw [← hcompleted, List.map_map]
      rfl
    rw [hinputs]
    exact ⟨hpassed.perm, hpassed.sublist_written, hpassed.sublist_failed⟩
  · obtain ⟨written, hpassed, hcompleted⟩ := hfinished h
    have houtputs : results.completed.map Outcome.output = written.map (·.1.output) := by
      rw [← hcompleted, List.map_map]
      rfl
    rw [houtputs] at hdetached
    have hended := hpassed.ended_withoutEntries hinput houtput hfew hdetached
      { options with isolateFailures := false } rfl duration
    rw [← hstrict] at hended
    obtain ⟨after', hrun, hlast⟩ := hended.exists_run
    refine ⟨_, after', hrun, hcompleted, rfl, hlast, fun place hplace name => ?_⟩
    obtain ⟨parent, hparent, -, -⟩ := list_of_isDirectory hinput
    have hother : parent ≠ place := fun heq => hdiffer (by rw [hparent, hplace, heq])
    obtain ⟨place', hplace', -, hkept⟩ := hdetached.ofOutput.exists_kept
    obtain rfl := Option.some.inj (hplace.symm.trans hplace')
    rw [hlast, withoutEntries, hpassed.toWritten.isEntry_eq hparent]
    refine Tree.node?_without_of_kept ?_
    rw [Tree.isGone_of_dropLast (by rwa [List.dropLast_concat]), isEntry_eq_false hparent hother, Bool.and_false]

/-- Isolates failures. -/
def isolating : Options := { Options.default with isolateFailures := true }

/-- The files of the three inputs with outputs for the two that can be read. -/
def bothWritten (first second : ByteArray) : Tree :=
  (firstWritten first).put ["out", "c.json"] (.file second)

theorem passed_threeInputs :
    Passed wordTokenizer isolating "out" threeInputs.files ["in/a.py", "in/b.py", "in/c.py"]
      [(⟨"in/a.py", "out/a.json", 1⟩, [⟨"WORD", "hello"⟩]), (⟨"in/c.py", "out/c.json", 1⟩, [⟨"WORD", "world"⟩])]
      [("in/b.py", .input (.notAFile "in/b.py"))]
      (bothWritten (artifactBytes [⟨"WORD", "hello"⟩]) (artifactBytes [⟨"WORD", "world"⟩])) := by
  have hname : outputPath "in/a.py" "out" = "out/a.json" := by cbv
  have hname' : outputPath "in/c.py" "out" = "out/c.json" := by cbv
  have hplace : threeInputs.files.place? "in/c.py" = some ["in", "c.py"] := by cbv
  have hplace' : threeInputs.files.place? "out/c.json" = some ["out", "c.json"] := by cbv
  have haccepts : threeInputs.files.Accepts ["out", "a.json"] := by decide
  have hrecords (first : ByteArray) : HasRecords wordTokenizer (firstWritten first) "in/c.py" [⟨"WORD", "world"⟩] :=
    .of_word ((lookup_firstWritten first hplace (by decide)).trans (by cbv)) (by decide +kernel)
  have hwrite (first second : ByteArray) :
      (firstWritten first).write (outputPath "in/c.py" "out") second = .ok (bothWritten first second) := by
    rw [hname']
    refine Tree.write_of_vacant ((Tree.Grows.of_write (write_threeInputs first)).place?_eq hplace') ?_ second
    rw [firstWritten, Tree.node?_put haccepts, if_neg (by decide)]
    cbv
  have hpassed : Passed wordTokenizer isolating "out" threeInputs.files ["in/a.py", "in/b.py", "in/c.py"] _ _ _ :=
    .written hasRecords_threeInputs (write_threeInputs _) (.failed (hasFailure_threeInputs _) rfl rfl
      (.written (hrecords _) (hwrite _ _) (.nil _)))
  rw [hname, hname'] at hpassed
  exact hpassed

/-- The device among the three inputs is on nobody's way. -/
theorem detached_threeInputs : Detached threeInputs.files "in" "out" ["in/b.py"] ["out/a.json", "out/c.json"] := by
  have hleaves : threeInputs.files.OnlyLeaves (isEntry threeInputs.files "in" ["in/b.py"]) := by
    intro place hgone node hnode
    obtain ⟨parent, name, hparent, rfl, hmem⟩ := isEntry_eq_true_iff.mp hgone
    obtain rfl : name = "b.py" := join_inj.mp ((List.mem_singleton.mp hmem).trans (by cbv : "in/b.py" = Files.join "in" "b.py"))
    obtain rfl : ["in"] = parent := Option.some.inj ((by cbv : some ["in"] = threeInputs.files.place? "in").trans hparent)
    obtain rfl : Files.Node.device = node := Option.some.inj hnode
    exact ⟨by simp, by simp⟩
  have hpast (path : String) (place : Place) (hplace : threeInputs.files.place? path = some place)
      (hkept : isEntry threeInputs.files "in" ["in/b.py"] place = false) :
      threeInputs.files.LeadsPast (isEntry threeInputs.files "in" ["in/b.py"]) path :=
    Tree.leadsPast_of_place? hleaves hplace hkept
  have hentries : entryPaths threeInputs.files "in" = ["in/a.py", "in/b.py", "in/c.py"] := by cbv
  refine ⟨hpast _ ["in"] (by cbv) (by cbv), hpast _ ["out"] (by cbv) (by cbv), fun path hpath hother => ?_, fun path hpath => ?_⟩
  · rw [hentries] at hpath
    simp only [List.mem_cons, List.not_mem_nil, or_false] at hpath hother
    rcases hpath with rfl | rfl | rfl
    · exact hpast _ ["in", "a.py"] (by cbv) (by cbv)
    · exact absurd rfl hother
    · exact hpast _ ["in", "c.py"] (by cbv) (by cbv)
  · simp only [List.mem_cons, List.not_mem_nil, or_false] at hpath
    rcases hpath with rfl | rfl
    · exact hpast _ ["out", "a.json"] (by cbv) (by cbv)
    · exact hpast _ ["out", "c.json"] (by cbv) (by cbv)

/-- The two files are written and the device is recorded, and without the device a batch that does not isolate failures does
the same. -/
theorem run_isolates_threeInputs :
    IsolatesFailures wordTokenizer isolating "in" "out" .zero threeInputs ∧
    ∃ results after, (run wordTokenizer isolating "in" "out" .zero).run threeInputs = (.ok results, after) ∧
      results.failed = [("in/b.py", .input (.notAFile "in/b.py"))] ∧
      Detached threeInputs.files "in" "out" (results.failed.map Prod.fst) (results.completed.map Outcome.output) := by
  have hended : Ended wordTokenizer isolating "in" "out" .zero threeInputs.files _ _ :=
    .finished (by cbv) (by cbv) (by rw [inputsIn_threeInputs]; decide) (by rw [inputsIn_threeInputs]; exact passed_threeInputs)
  obtain ⟨after, hrun, -⟩ := hended.exists_run
  have hin : threeInputs.files.place? "in" = some ["in"] := by cbv
  have hout : threeInputs.files.place? "out" = some ["out"] := by cbv
  exact ⟨run_isolates rfl (by cbv) (by cbv) (by rw [hin, hout]; decide) (by rw [inputsIn_threeInputs]; decide), _, after, hrun,
    rfl, detached_threeInputs⟩

/-- A link to an output, a file, a link to the first link, and a directory for the outputs. -/
def linkedInputs : Session where
  files := ⟨[(["in"], .directory), (["in", "b.py"], .link "../out/c.json"), (["in", "c.py"], .file "hello".toUTF8),
    (["in", "d.py"], .link "b.py"), (["out"], .directory)], [], by decide⟩
  log := .empty .error
  shown := []

/-- The first link leads nowhere at its turn, and the second one to the output that has been written by then. -/
theorem passed_linkedInputs : ∃ written last, Passed wordTokenizer isolating "out" linkedInputs.files
    ["in/b.py", "in/c.py", "in/d.py"] written [("in/b.py", .input (.fileNotFound "in/b.py"))] last := by
  have hname : outputPath "in/c.py" "out" = "out/c.json" := by cbv
  have hname' : outputPath "in/d.py" "out" = "out/d.json" := by cbv
  have hplace : linkedInputs.files.place? "out/c.json" = some ["out", "c.json"] := by cbv
  have hplace' : linkedInputs.files.place? "out/d.json" = some ["out", "d.json"] := by cbv
  have hlink : linkedInputs.files.place? "in/d.py" = some ["out", "c.json"] := by cbv
  have haccepts : linkedInputs.files.Accepts ["out", "c.json"] := by decide
  let first (content : ByteArray) : Tree := linkedInputs.files.put ["out", "c.json"] (.file content)
  have hwrite (content : ByteArray) : linkedInputs.files.write (outputPath "in/c.py" "out") content = .ok (first content) :=
    hname ▸ Tree.write_of_vacant hplace (by cbv) content
  have hgrows (content : ByteArray) : linkedInputs.files.Grows (first content) := .of_write (hwrite content)
  have hwrite' (content other : ByteArray) : (first content).write (outputPath "in/d.py" "out") other =
      .ok ((first content).put ["out", "d.json"] (.file other)) := by
    rw [hname']
    refine Tree.write_of_vacant ((hgrows content).place?_eq hplace') ?_ other
    rw [Tree.node?_put haccepts, if_neg (by decide)]
    cbv
  have hlookup (content : ByteArray) : (first content).lookup "in/d.py" = .ok (.file content) := by
    rw [Tree.lookup_eq ((hgrows content).place?_eq hlink), Tree.node?_put haccepts, if_pos rfl]
    rfl
  have hfails : HasFailure wordTokenizer linkedInputs.files "in/b.py" (.input (.fileNotFound "in/b.py")) :=
    @HasFailure.of_lookup _ _ _ .notFound (by cbv)
  have hrecords : HasRecords wordTokenizer linkedInputs.files "in/c.py" [⟨"WORD", "hello"⟩] :=
    .of_word (by cbv) (by decide +kernel)
  have hrecords' : HasRecords wordTokenizer (first (artifactBytes [⟨"WORD", "hello"⟩])) "in/d.py"
      [⟨"WORD", Record.artifact [⟨"WORD", "hello"⟩]⟩] :=
    .of_word (hlookup _) (by decide +kernel)
  exact ⟨_, _, .failed hfails rfl rfl (.written hrecords (hwrite _) (.written hrecords' (hwrite' _ _) (.nil _)))⟩

/-- Without the first link the second one leads nowhere either. -/
theorem ended_linkedInputs : ∃ last, Ended wordTokenizer { isolating with isolateFailures := false } "in" "out" .zero
    (withoutEntries linkedInputs.files "in" ["in/b.py"]) (.error (.file "in/d.py" (.input (.fileNotFound "in/d.py")))) last := by
  let rest : Tree := ⟨[(["in"], .directory), (["in", "c.py"], .file "hello".toUTF8), (["in", "d.py"], .link "b.py"),
    (["out"], .directory)], [], by decide⟩
  have hrest : withoutEntries linkedInputs.files "in" ["in/b.py"] = rest := Tree.ext (by cbv) rfl
  have hname : outputPath "in/c.py" "out" = "out/c.json" := by cbv
  have hplace : rest.place? "out/c.json" = some ["out", "c.json"] := by cbv
  have hlink : rest.place? "in/d.py" = some ["in", "b.py"] := by cbv
  let first (content : ByteArray) : Tree := rest.put ["out", "c.json"] (.file content)
  have hwrite (content : ByteArray) : rest.write (outputPath "in/c.py" "out") content = .ok (first content) :=
    hname ▸ Tree.write_of_vacant hplace (by cbv) content
  have hrecords : HasRecords wordTokenizer rest "in/c.py" [⟨"WORD", "hello"⟩] :=
    .of_word (by cbv) (by decide +kernel)
  have hlookup (content : ByteArray) : (first content).lookup "in/d.py" = .error .notFound := by
    refine (Tree.lookup_of_write (hwrite content) hlink ?_).trans (by cbv)
    rw [hname, hplace]
    decide
  have hinputs : inputsIn rest "in" = ["in/c.py"] ++ "in/d.py" :: [] := by cbv
  rw [hrest]
  exact ⟨_, .stopped (by cbv) (by cbv) (by rw [hinputs]; decide) hinputs (.written hrecords (hwrite _) (.nil _))
    (.file (.of_lookup (hlookup _)) (.inl rfl))⟩

/-- An input that has failed can be on the way of another one: a batch that isolates failures succeeds, but without the
failed input one that does not isolate them fails. -/
theorem linkedInputs_disagree :
    linkedInputs.files.isDirectory "in" = true ∧ linkedInputs.files.isDirectory "out" = true ∧
    linkedInputs.files.place? "in" ≠ linkedInputs.files.place? "out" ∧
    (inputsIn linkedInputs.files "in").length ≤ isolating.fileLimit ∧
    ∃ results after, (run wordTokenizer isolating "in" "out" .zero).run linkedInputs = (.ok results, after) ∧
      ∀ strict : Session, strict.files = withoutEntries linkedInputs.files "in" (results.failed.map Prod.fst) →
        ∃ e after', (run wordTokenizer { isolating with isolateFailures := false } "in" "out" .zero).run strict =
          (.error e, after') := by
  have hinputs : inputsIn linkedInputs.files "in" = ["in/b.py", "in/c.py", "in/d.py"] := by cbv
  have hin : linkedInputs.files.place? "in" = some ["in"] := by cbv
  have hout : linkedInputs.files.place? "out" = some ["out"] := by cbv
  obtain ⟨written, last, hpassed⟩ := passed_linkedInputs
  have hended : Ended wordTokenizer isolating "in" "out" .zero linkedInputs.files _ last :=
    .finished (by cbv) (by cbv) (by rw [hinputs]; decide) (by rw [hinputs]; exact hpassed)
  obtain ⟨after, hrun, -⟩ := hended.exists_run
  refine ⟨by cbv, by cbv, by rw [hin, hout]; decide, by rw [hinputs]; decide, _, after, hrun, fun strict hstrict => ?_⟩
  obtain ⟨last', hended'⟩ := ended_linkedInputs
  rw [List.map_singleton] at hstrict
  rw [← hstrict] at hended'
  obtain ⟨after', hrun', -⟩ := hended'.exists_run
  exact ⟨_, after', hrun'⟩

end Lexeme.Batch
