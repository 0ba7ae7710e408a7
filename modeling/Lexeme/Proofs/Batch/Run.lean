import Lexeme.Batch.Run
import Lexeme.Proofs.Files.Source
import Lexeme.Proofs.Files.Tree
import Lexeme.Proofs.Tokenizer

/-!
# What a batch comes to

An input has no records, or its artifact cannot be written, or it is written; only then do the files change (`Turned`).
A run passes inputs, one after the other (`Passed`), until one of them stops it (`Stops`) or none is left. So a batch
either does not begin, or stops at an input, or finishes, and which of these it is follows from the files it begins
with (`run_iff`).
-/

namespace Lexeme.Batch

open Files (Tree)

/-! ## Work on a session -/

section

variable {α β : Type} {session after : Session}

theorem run_bind_eq_iff {x : Work α} {f : α → Work β} {result : β} :
    (x >>= f).run session = (result, after) ↔
      ∃ a mid, x.run session = (a, mid) ∧ (f a).run mid = (result, after) := by
  constructor
  · exact fun h => ⟨_, _, rfl, h⟩
  · rintro ⟨a, mid, hx, hf⟩
    rw [← hf]
    exact congrArg (fun p : α × Session => (f p.1).run p.2) hx

theorem run_pure_eq_iff {a result : α} :
    (pure a : Work α).run session = (result, after) ↔ result = a ∧ after = session := by
  rw [StateT.run_pure]
  constructor
  · intro h
    cases h
    exact ⟨rfl, rfl⟩
  · rintro ⟨rfl, rfl⟩
    rfl

/-- Reporting changes no files. -/
theorem run_logged {work : Tree → Logged α} {result : α} (h : (logged work).run session = (result, after)) :
    result = ((work session.files).run session.log).1 ∧ after.files = session.files := by
  cases h
  exact ⟨rfl, rfl⟩

end

/-! ## One input -/

variable {tokenizer : Tokenizer} {options : Options} {directory : String} {session after : Session}

/-- Whether a file of a tree has the given records, whatever has been reported. -/
def HasRecords (tokenizer : Tokenizer) (files : Tree) (path : String) (records : List Record) : Prop :=
  ∀ log, ((tokenizer.fileRecords files path).run log).1 = .ok records

/-- The bytes of the artifact of some records. -/
def artifactBytes (records : List Record) : ByteArray := (Record.artifact records).toUTF8

theorem HasRecords.eq {files : Tree} {path : String} {records other : List Record}
    (h : HasRecords tokenizer files path records) (h' : HasRecords tokenizer files path other) : records = other :=
  Except.ok.inj ((h (Log.empty .error)).symm.trans (h' (Log.empty .error)))

/-- Whether a file of a tree has no records, for the given reason, whatever has been reported. -/
def HasFailure (tokenizer : Tokenizer) (files : Tree) (path : String) (cause : TokenizingError) : Prop :=
  ∀ log, ((tokenizer.fileRecords files path).run log).1 = .error cause

theorem HasRecords.not_hasFailure {files : Tree} {path : String} {records : List Record} {cause : TokenizingError}
    (h : HasRecords tokenizer files path records) (h' : HasFailure tokenizer files path cause) : False := by
  cases (h (Log.empty .error)).symm.trans (h' (Log.empty .error))

theorem HasFailure.eq {files : Tree} {path : String} {cause other : TokenizingError}
    (h : HasFailure tokenizer files path cause) (h' : HasFailure tokenizer files path other) : cause = other :=
  Except.error.inj ((h (Log.empty .error)).symm.trans (h' (Log.empty .error)))

/-- A path that leads nowhere has no records. -/
theorem HasFailure.of_lookup {files : Tree} {path : String} {failure : Files.Failure}
    (h : files.lookup path = .error failure) : HasFailure tokenizer files path (.input (.ofFailure path failure)) := by
  intro log
  have hread : ((Files.readInput files path).run log).1 = .error (.ofFailure path failure) := by
    rw [Files.readInput, Files.run_readSource_fst, Files.sourceAt, h]
  unfold Tokenizer.fileRecords
  rw [Logged.run_bind_fst, hread]
  rfl

/-- The records of a file are those of its text. -/
theorem HasRecords.of_lookup {files : Tree} {path text : String} {records : List Record}
    (h : files.lookup path = .ok (.file text.toUTF8)) (hsize : text.toUTF8.size ≤ Files.inputLimit)
    (hrecords : ∀ log, ((tokenizer.records text).run log).1 = .ok records) : HasRecords tokenizer files path records := by
  intro log
  have hread : ((Files.readInput files path).run log).1 = .ok ⟨path, text.toUTF8.size, text⟩ :=
    Files.readSource_eq_ok_iff.mpr ⟨h, rfl, rfl, hsize⟩
  unfold Tokenizer.fileRecords
  rw [Logged.run_bind_fst, hread]
  exact hrecords _

/-- All that can become of an input: it has no records, or its artifact cannot be written, or it is written. -/
inductive Turned (tokenizer : Tokenizer) (directory input : String) (files : Tree) : Except Error Outcome → Tree → Prop
  | refused {cause : TokenizingError} (h : HasFailure tokenizer files input cause) :
      Turned tokenizer directory input files (.error (.file input cause)) files
  | unwritable {records : List Record} {failure : Files.Failure} (hrecords : HasRecords tokenizer files input records)
      (hwrite : files.write (outputPath input directory) (artifactBytes records) = .error failure) :
      Turned tokenizer directory input files (.error (.outputWrite (outputPath input directory) failure.message)) files
  | written {records : List Record} {files' : Tree} (hrecords : HasRecords tokenizer files input records)
      (hwrite : files.write (outputPath input directory) (artifactBytes records) = .ok files') :
      Turned tokenizer directory input files (.ok ⟨input, outputPath input directory, records.length⟩) files'

theorem writeArtifact_cases {path : String} {records : List Record} {result : Except Error Unit}
    (h : (writeArtifact path records).run session = (result, after)) :
    (∃ failure, result = .error (.outputWrite path failure.message) ∧ after.files = session.files ∧
        session.files.write path (artifactBytes records) = .error failure) ∨
      result = .ok () ∧ session.files.write path (artifactBytes records) = .ok after.files := by
  obtain ⟨_, _, hget, h⟩ := run_bind_eq_iff.mp h
  cases hget
  cases hwrite : session.files.write path (Record.artifact records).toUTF8 with
  | error failure =>
    rw [hwrite] at h
    cases h
    exact .inl ⟨failure, rfl, rfl, hwrite⟩
  | ok files =>
    rw [hwrite] at h
    cases h
    exact .inr ⟨rfl, hwrite⟩

theorem turned_of_processFile {input : String} {result : Except Error Outcome}
    (h : (processFile tokenizer options directory input).run session = (result, after)) :
    Turned tokenizer directory input session.files result after.files := by
  obtain ⟨found, mid, hfound, h⟩ := run_bind_eq_iff.mp h
  obtain ⟨rfl, hfiles⟩ := run_logged hfound
  rw [← hfiles]
  rw [← hfiles] at h
  have hsteady (log : Log) : ((tokenizer.fileRecords mid.files input).run log).1 =
      ((tokenizer.fileRecords mid.files input).run session.log).1 := Logged.Steady.fileRecords tokenizer mid.files input _ _
  cases hrecords : ((tokenizer.fileRecords mid.files input).run session.log).1 with
  | error cause =>
    rw [hrecords] at h
    obtain ⟨rfl, rfl⟩ := run_pure_eq_iff.mp h
    exact .refused fun log => (hsteady log).trans hrecords
  | ok records =>
    rw [hrecords] at h
    have hrecords : HasRecords tokenizer mid.files input records := fun log => (hsteady log).trans hrecords
    have hwritten {shown : Session} {finish : Except Error Unit → Work (Except Error Outcome)}
        (hfails : ∀ e, finish (.error e) = return .error e)
        (hworks : finish (.ok ()) = return .ok ⟨input, outputPath input directory, records.length⟩)
        (h : (writeArtifact (outputPath input directory) records >>= finish).run shown = (result, after))
        (hshown : shown.files = mid.files) :
        Turned tokenizer directory input mid.files result after.files := by
      obtain ⟨_, last, hwrite, h⟩ := run_bind_eq_iff.mp h
      rw [← hshown] at hrecords ⊢
      rcases writeArtifact_cases hwrite with ⟨failure, rfl, hsame, hfailure⟩ | ⟨rfl, hfile⟩
      · rw [hfails] at h
        obtain ⟨rfl, rfl⟩ := run_pure_eq_iff.mp h
        rw [hsame]
        exact .unwritable hrecords hfailure
      · rw [hworks] at h
        obtain ⟨rfl, rfl⟩ := run_pure_eq_iff.mp h
        exact .written hrecords hfile
    dsimp only at h
    split at h
    · obtain ⟨_, shown, hdisplay, h⟩ := run_bind_eq_iff.mp h
      cases hdisplay
      exact hwritten (fun _ => rfl) rfl h rfl
    · exact hwritten (fun _ => rfl) rfl h rfl

theorem turned_of_processNumbered {number : Nat} {input : String} {result : Except Error Outcome}
    (h : (processNumbered tokenizer options directory number input).run session = (result, after)) :
    Turned tokenizer directory input session.files result after.files := by
  obtain ⟨_, entered, hentered, h⟩ := run_bind_eq_iff.mp h
  obtain ⟨found, mid, hfound, h⟩ := run_bind_eq_iff.mp h
  obtain ⟨_, left, hleft, h⟩ := run_bind_eq_iff.mp h
  obtain ⟨rfl, rfl⟩ := run_pure_eq_iff.mp h
  rw [(run_logged hleft).2, ← (run_logged hentered).2]
  exact turned_of_processFile hfound

/-- What becomes of an input follows from the files. -/
theorem Turned.unique {input : String} {files last last' : Tree} {result result' : Except Error Outcome}
    (h : Turned tokenizer directory input files result last) (h' : Turned tokenizer directory input files result' last') :
    result = result' ∧ last = last' := by
  cases h with
  | refused hcause =>
    cases h' with
    | refused hcause' => exact ⟨by rw [hcause.eq hcause'], rfl⟩
    | unwritable hrecords' => exact (hrecords'.not_hasFailure hcause).elim
    | written hrecords' => exact (hrecords'.not_hasFailure hcause).elim
  | unwritable hrecords hwrite =>
    cases h' with
    | refused hcause' => exact (hrecords.not_hasFailure hcause').elim
    | unwritable hrecords' hwrite' =>
      obtain rfl := hrecords.eq hrecords'
      rw [hwrite] at hwrite'
      exact ⟨by rw [Except.error.inj hwrite'], rfl⟩
    | written hrecords' hwrite' =>
      obtain rfl := hrecords.eq hrecords'
      cases hwrite.symm.trans hwrite'
  | written hrecords hwrite =>
    cases h' with
    | refused hcause' => exact (hrecords.not_hasFailure hcause').elim
    | unwritable hrecords' hwrite' =>
      obtain rfl := hrecords.eq hrecords'
      cases hwrite.symm.trans hwrite'
    | written hrecords' hwrite' =>
      obtain rfl := hrecords.eq hrecords'
      exact ⟨rfl, Except.ok.inj (hwrite.symm.trans hwrite')⟩

/-- An input is turned into what the files say. -/
theorem Turned.exists_processNumbered {input : String} {last : Tree} {result : Except Error Outcome}
    (h : Turned tokenizer directory input session.files result last) (options : Options) (number : Nat) :
    ∃ after, (processNumbered tokenizer options directory number input).run session = (result, after) ∧
      after.files = last := by
  obtain ⟨hresult, hlast⟩ :=
    (@turned_of_processNumbered tokenizer options directory session _ number input _ rfl).unique h
  exact ⟨_, Prod.ext hresult rfl, hlast⟩

/-! ## Discovery -/

/-- The paths of the entries of a directory. -/
def entryPaths (files : Tree) (directory : String) : List String :=
  ((files.list directory).toOption.getD []).map (Files.join directory)

/-- The paths of the inputs in a directory, in ascending order. -/
def inputsIn (files : Tree) (directory : String) : List String :=
  ((entryPaths files directory).filter (!files.isDirectory ·)).mergeSort (· ≤ ·)

theorem skipDirectories_run_fst (files : Tree) (paths : List String) (log : Log) :
    ((skipDirectories files paths).run log).1 = paths.filter (!files.isDirectory ·) := by
  induction paths generalizing log with
  | nil => rfl
  | cons path paths ih =>
    unfold skipDirectories
    cases hpath : files.isDirectory path with
    | true =>
      rw [if_pos rfl, Logged.run_bind_fst, List.filter_cons_of_neg (by simp [hpath])]
      exact ih _
    | false =>
      rw [if_neg Bool.false_ne_true, Logged.run_bind_fst, List.filter_cons_of_pos (by simp [hpath]), ← ih log]
      rfl

/-- A directory can be listed. -/
theorem list_of_isDirectory {files : Tree} {path : String} (h : files.isDirectory path = true) :
    ∃ place, files.place? path = some place ∧ files.node? place = some .directory ∧
      files.list path = .ok (files.namesAt place) := by
  unfold Tree.isDirectory Tree.lookup at h
  cases hlocate : files.locate path with
  | error failure => simp [hlocate] at h
  | ok location =>
    obtain ⟨place, rfl, -⟩ := (Tree.Grows.refl files).locate_eq hlocate
    refine ⟨place, Tree.place?_eq_some_iff.mpr hlocate, ?_⟩
    rw [Tree.list, hlocate]
    rw [hlocate] at h
    unfold Tree.atPlace at h ⊢
    cases hnode : files.node? place with
    | none => simp [hnode] at h
    | some node => cases node <;> simp [hnode] at h ⊢

/-- The inputs are found, unless there is no directory or there are too many of them. -/
theorem discover_run_fst (options : Options) (files : Tree) (directory : String) (log : Log) :
    ((discover options files directory).run log).1 =
      if files.isDirectory directory = false then .error (.directoryNotFound directory)
      else if options.fileLimit < (inputsIn files directory).length then
        .error (.tooManyFiles (inputsIn files directory).length options.fileLimit)
      else .ok (inputsIn files directory) := by
  unfold discover
  rw [Logged.run_bind_fst]
  cases hdirectory : files.isDirectory directory with
  | false =>
    rw [if_pos rfl, requireDirectory, hdirectory]
    rfl
  | true =>
    obtain ⟨place, -, -, hlist⟩ := list_of_isDirectory hdirectory
    have hinputs (log : Log) : ((inputPaths files directory (files.namesAt place)).run log).1 = inputsIn files directory := by
      rw [inputPaths, Logged.run_bind_fst, skipDirectories_run_fst, inputsIn, entryPaths, hlist]
      rfl
    rw [if_neg Bool.noConfusion, requireDirectory, hdirectory, hlist]
    show ((inputPaths files directory (files.namesAt place) >>= _).run log).1 = _
    rw [Logged.run_bind_fst, hinputs]
    split_ifs <;> rfl

/-! ## Inputs one after the other -/

/-- Inputs that a run passes: the outcomes and the records of those that are written, the failures of the others, and
the files before and after. -/
inductive Passed (tokenizer : Tokenizer) (options : Options) (directory : String) :
    Tree → List String → List (Outcome × List Record) → List (String × TokenizingError) → Tree → Prop
  | nil (files : Tree) : Passed tokenizer options directory files [] [] [] files
  | written {files mid last : Tree} {input : String} {inputs : List String} {records : List Record}
      {written : List (Outcome × List Record)} {failed : List (String × TokenizingError)}
      (hrecords : HasRecords tokenizer files input records)
      (hwrite : files.write (outputPath input directory) (artifactBytes records) = .ok mid)
      (hrest : Passed tokenizer options directory mid inputs written failed last) :
      Passed tokenizer options directory files (input :: inputs)
        ((⟨input, outputPath input directory, records.length⟩, records) :: written) failed last
  | failed {files last : Tree} {input : String} {inputs : List String} {cause : TokenizingError}
      {written : List (Outcome × List Record)} {failed : List (String × TokenizingError)}
      (hcause : HasFailure tokenizer files input cause)
      (hisolated : options.isolateFailures = true) (hfatal : cause.isFatal = false)
      (hrest : Passed tokenizer options directory files inputs written failed last) :
      Passed tokenizer options directory files (input :: inputs) written ((input, cause) :: failed) last

/-- Whether a run stops at an input, and with which error. -/
inductive Stops (tokenizer : Tokenizer) (options : Options) (directory : String) (files : Tree) (input : String) : Error → Prop
  | file {cause : TokenizingError} (hcause : HasFailure tokenizer files input cause)
      (hstops : options.isolateFailures = false ∨ cause.isFatal = true) :
      Stops tokenizer options directory files input (.file input cause)
  | write {records : List Record} {failure : Files.Failure} (hrecords : HasRecords tokenizer files input records)
      (hwrite : files.write (outputPath input directory) (artifactBytes records) = .error failure) :
      Stops tokenizer options directory files input (.outputWrite (outputPath input directory) failure.message)

theorem isolated?_file_eq_some (path : String) {cause : TokenizingError} (hisolated : options.isolateFailures = true)
    (hfatal : cause.isFatal = false) : isolated? options (.file path cause) = some (path, cause) := by
  simp [isolated?, hisolated, hfatal]

theorem isolated?_file_eq_none (path : String) {cause : TokenizingError}
    (h : options.isolateFailures = false ∨ cause.isFatal = true) : isolated? options (.file path cause) = none := by
  rcases h with h | h <;> simp [isolated?, h]

/-- The results with those of more inputs, in the order in which a run keeps them. -/
def Results.push (results : Results) (written : List (Outcome × List Record)) (failed : List (String × TokenizingError)) :
    Results :=
  { results with
    completed := (written.map Prod.fst).reverse ++ results.completed
    failed := failed.reverse ++ results.failed }

/-- A failure that is isolated is recorded, and the rest is processed. -/
theorem processAll_of_isolated {number : Nat} {results : Results} {path : String} {paths : List String} {e : Error}
    {cause : TokenizingError} (hrun : (processNumbered tokenizer options directory number path).run session = (.error e, after))
    (hisolated : isolated? options e = some (path, cause)) :
    ∃ warned : Session, warned.files = after.files ∧
      (processAll tokenizer options directory number results (path :: paths)).run session =
        (processAll tokenizer options directory (number + 1) { results with failed := (path, cause) :: results.failed }
          paths).run warned := by
  refine ⟨((logged fun _ =>
    Log.warning "Skipping failed input" [("path", path), ("error", cause.message)]).run after).2, rfl, ?_⟩
  rw [processAll, StateT.run_bind, hrun]
  change StateT.run _ after = _
  dsimp only
  rw [hisolated]
  rfl

/-- Any other failure ends the run. -/
theorem processAll_of_not_isolated {number : Nat} {results : Results} {path : String} {paths : List String} {e : Error}
    (hrun : (processNumbered tokenizer options directory number path).run session = (.error e, after))
    (hisolated : isolated? options e = none) :
    (processAll tokenizer options directory number results (path :: paths)).run session = (.error e, after) := by
  rw [processAll, StateT.run_bind, hrun]
  change StateT.run _ after = _
  dsimp only
  rw [hisolated]
  rfl

/-- Inputs that a run passes leave the rest to be processed. -/
theorem Passed.exists_processAll_append {files mid : Tree} {done : List String} {written : List (Outcome × List Record)}
    {failed : List (String × TokenizingError)} (h : Passed tokenizer options directory files done written failed mid)
    (number : Nat) (results : Results) (hfiles : session.files = files) (rest : List String) :
    ∃ number' session', session'.files = mid ∧
      (processAll tokenizer options directory number results (done ++ rest)).run session =
        (processAll tokenizer options directory number' (results.push written failed) rest).run session' := by
  induction h generalizing number results session with
  | nil files => exact ⟨number, session, hfiles, rfl⟩
  | @written files mid last input inputs records written failed hrecords hwrite _ ih =>
    subst hfiles
    obtain ⟨after, hrun, hmid⟩ := (Turned.written hrecords hwrite).exists_processNumbered options number
    obtain ⟨number', session', hsession', heq⟩ := ih (number + 1)
      { results with completed := ⟨input, outputPath input directory, records.length⟩ :: results.completed } hmid
    refine ⟨number', session', hsession', ?_⟩
    rw [List.cons_append, processAll, StateT.run_bind, hrun]
    refine heq.trans ?_
    simp [Results.push]
  | @failed files last input inputs cause written failed hcause hisolated hfatal _ ih =>
    subst hfiles
    have hturned : Turned tokenizer directory input session.files _ _ := .refused hcause
    obtain ⟨after, hrun, hmid⟩ := hturned.exists_processNumbered options number
    obtain ⟨warned, hwarned, hskip⟩ := processAll_of_isolated hrun (isolated?_file_eq_some input hisolated hfatal)
    obtain ⟨number', session', hsession', heq⟩ :=
      ih (number + 1) { results with failed := (input, cause) :: results.failed } (hwarned.trans hmid)
    refine ⟨number', session', hsession', hskip.trans (heq.trans ?_)⟩
    simp [Results.push]

/-- Inputs that a run passes are all processed if none is left. -/
theorem Passed.exists_processAll {files last : Tree} {inputs : List String} {written : List (Outcome × List Record)}
    {failed : List (String × TokenizingError)} (h : Passed tokenizer options directory files inputs written failed last)
    (number : Nat) (results : Results) (hfiles : session.files = files) :
    ∃ after, after.files = last ∧ (processAll tokenizer options directory number results inputs).run session =
      (.ok { results with
        completed := results.completed.reverse ++ written.map Prod.fst
        failed := results.failed.reverse ++ failed }, after) := by
  obtain ⟨number', after, hlast, heq⟩ := h.exists_processAll_append number results hfiles []
  rw [List.append_nil] at heq
  refine ⟨after, hlast, heq.trans ?_⟩
  simp [processAll, Results.push]
  rfl

/-- An input that stops a run ends it, with its own error. -/
theorem Stops.exists_processAll {bad : String} {e : Error} (h : Stops tokenizer options directory session.files bad e)
    (number : Nat) (results : Results) (rest : List String) :
    ∃ after, after.files = session.files ∧
      (processAll tokenizer options directory number results (bad :: rest)).run session = (.error e, after) := by
  have hstop {e : Error} (hturned : Turned tokenizer directory bad session.files (.error e) session.files)
      (hnone : isolated? options e = none) :
      ∃ after, after.files = session.files ∧
        (processAll tokenizer options directory number results (bad :: rest)).run session = (.error e, after) := by
    obtain ⟨after, hrun, hafter⟩ := hturned.exists_processNumbered options number
    exact ⟨after, hafter, processAll_of_not_isolated hrun hnone⟩
  cases h with
  | file hcause hstops => exact hstop (.refused hcause) (isolated?_file_eq_none bad hstops)
  | write hrecords hwrite => exact hstop (.unwritable hrecords hwrite) rfl

/-- The inputs are passed up to the end, or up to one that stops the run. -/
theorem exists_passed (tokenizer : Tokenizer) (options : Options) (directory : String) (files : Tree) (inputs : List String) :
    (∃ written failed last, Passed tokenizer options directory files inputs written failed last) ∨
      ∃ done bad rest written failed last e, inputs = done ++ bad :: rest ∧
        Passed tokenizer options directory files done written failed last ∧ Stops tokenizer options directory last bad e := by
  induction inputs generalizing files with
  | nil => exact .inl ⟨[], [], files, .nil files⟩
  | cons input inputs ih =>
    obtain ⟨result, last, hturned⟩ : ∃ result last, Turned tokenizer directory input files result last :=
      ⟨_, _, @turned_of_processNumbered tokenizer options directory ⟨files, .empty .error, []⟩ _ 0 input _ rfl⟩
    cases hturned with
    | @refused cause hcause =>
      by_cases hisolated : options.isolateFailures = true ∧ cause.isFatal = false
      · obtain ⟨hisolated, hfatal⟩ := hisolated
        rcases ih files with ⟨written, failed, last, hpassed⟩ | ⟨done, bad, rest, written, failed, last, e, rfl, hpassed, hstops⟩
        · exact .inl ⟨_, _, _, .failed hcause hisolated hfatal hpassed⟩
        · exact .inr ⟨input :: done, bad, rest, _, _, _, e, rfl, .failed hcause hisolated hfatal hpassed, hstops⟩
      · refine .inr ⟨[], input, inputs, [], [], files, _, rfl, .nil files, .file hcause ?_⟩
        by_contra hneither
        exact hisolated (by simpa using hneither)
    | unwritable hrecords hwrite => exact .inr ⟨[], input, inputs, [], [], files, _, rfl, .nil files, .write hrecords hwrite⟩
    | @written records mid hrecords hwrite =>
      rcases ih last with ⟨written, failed, last', hpassed⟩ | ⟨done, bad, rest, written, failed, last', e, rfl, hpassed, hstops⟩
      · exact .inl ⟨_, _, _, .written hrecords hwrite hpassed⟩
      · exact .inr ⟨input :: done, bad, rest, _, _, _, e, rfl, .written hrecords hwrite hpassed, hstops⟩

/-! ## The whole run -/

/-- All that a batch can come to: it does not begin, or stops at an input, or finishes. -/
inductive Ended (tokenizer : Tokenizer) (options : Options) (input output : String) (duration : Duration) (files : Tree) :
    Except Error Results → Tree → Prop
  | noOutput (houtput : files.isDirectory output = false) :
      Ended tokenizer options input output duration files (.error (.directoryNotFound output)) files
  | noInput (houtput : files.isDirectory output = true) (hinput : files.isDirectory input = false) :
      Ended tokenizer options input output duration files (.error (.directoryNotFound input)) files
  | tooMany (houtput : files.isDirectory output = true) (hinput : files.isDirectory input = true)
      (hmany : options.fileLimit < (inputsIn files input).length) :
      Ended tokenizer options input output duration files
        (.error (.tooManyFiles (inputsIn files input).length options.fileLimit)) files
  | stopped {done rest : List String} {bad : String} {written : List (Outcome × List Record)}
      {failed : List (String × TokenizingError)} {e : Error} {last : Tree}
      (houtput : files.isDirectory output = true) (hinput : files.isDirectory input = true)
      (hfew : (inputsIn files input).length ≤ options.fileLimit) (hinputs : inputsIn files input = done ++ bad :: rest)
      (hpassed : Passed tokenizer options output files done written failed last)
      (hstops : Stops tokenizer options output last bad e) :
      Ended tokenizer options input output duration files (.error e) last
  | finished {written : List (Outcome × List Record)} {failed : List (String × TokenizingError)} {last : Tree}
      (houtput : files.isDirectory output = true) (hinput : files.isDirectory input = true)
      (hfew : (inputsIn files input).length ≤ options.fileLimit)
      (hpassed : Passed tokenizer options output files (inputsIn files input) written failed last) :
      Ended tokenizer options input output duration files
        (.ok ⟨written.map Prod.fst, failed, (inputsIn files input).length, duration⟩) last

variable {input output : String} {duration : Duration} {files last : Tree} {result : Except Error Results}

/-- The session of a batch that has begun. -/
def begin (tokenizer : Tokenizer) (input output : String) (session : Session) : Session :=
  ((logged fun _ => Log.info "Starting batch processing"
    [("engine", tokenizer.engine.name), ("input_dir", input), ("output_dir", output)]).run session).2

theorem requireDirectory_run_fst (files : Tree) (path : String) (log : Log) :
    ((requireDirectory files path).run log).1 =
      if files.isDirectory path then .ok () else .error (.directoryNotFound path) := by
  unfold requireDirectory
  split_ifs <;> rfl

/-- A batch that finds its directories goes by what it discovers. -/
theorem exists_process_of_discover (tokenizer : Tokenizer) (houtput : session.files.isDirectory output = true)
    {discovered : Except Error (List String)}
    (hdiscovered : ∀ log, ((discover options session.files input).run log).1 = discovered) :
    ∃ listed : Session, listed.files = session.files ∧ (process tokenizer options input output).run session =
      (match discovered with
        | .error e => return .error e
        | .ok paths => processAll tokenizer options output 0 ⟨[], [], paths.length, .zero⟩ paths : Work _).run listed := by
  have hrequired : ((logged (requireDirectory · output)).run (begin tokenizer input output session)).1 = .ok () := by
    show ((requireDirectory session.files output).run _).1 = _
    rw [requireDirectory_run_fst, if_pos houtput]
  let checked := ((logged (requireDirectory · output)).run (begin tokenizer input output session)).2
  have hlisted : ((logged (discover options · input)).run checked).1 = discovered := hdiscovered _
  refine ⟨((logged (discover options · input)).run checked).2, rfl, ?_⟩
  exact run_bind_eq_iff.mpr ⟨_, _, rfl, run_bind_eq_iff.mpr ⟨_, checked, Prod.ext hrequired rfl,
    run_bind_eq_iff.mpr ⟨_, _, Prod.ext hlisted rfl, rfl⟩⟩⟩

/-- A batch reports what its processing results in. -/
theorem exists_run_of_process {processed : Except Error Results} {mid : Session}
    (h : (process tokenizer options input output).run session = (processed, mid)) (hmid : mid.files = last)
    (duration : Duration) :
    ∃ after, (run tokenizer options input output duration).run session = (processed.map ({ · with duration }), after) ∧
      after.files = last := by
  cases processed with
  | error e => exact ⟨_, run_bind_eq_iff.mpr ⟨_, _, h, rfl⟩, hmid⟩
  | ok results => exact ⟨_, run_bind_eq_iff.mpr ⟨_, _, h, rfl⟩, hmid⟩

theorem Ended.exists_run (h : Ended tokenizer options input output duration session.files result last) :
    ∃ after, (run tokenizer options input output duration).run session = (result, after) ∧ after.files = last := by
  have hdiscover (log : Log) := discover_run_fst options session.files input log
  cases h with
  | noOutput houtput =>
    have hrequired : ((logged (requireDirectory · output)).run (begin tokenizer input output session)).1 =
        .error (.directoryNotFound output) := by
      show ((requireDirectory session.files output).run _).1 = _
      rw [requireDirectory_run_fst, houtput]
      rfl
    exact exists_run_of_process (run_bind_eq_iff.mpr ⟨_, _, rfl,
      run_bind_eq_iff.mpr ⟨_, _, Prod.ext hrequired rfl, rfl⟩⟩) rfl duration
  | noInput houtput hinput =>
    simp only [if_pos hinput] at hdiscover
    obtain ⟨listed, hlisted, hprocess⟩ := exists_process_of_discover tokenizer houtput hdiscover
    exact exists_run_of_process hprocess hlisted duration
  | tooMany houtput hinput hmany =>
    simp only [hinput, Bool.true_eq_false, if_false, if_pos hmany] at hdiscover
    obtain ⟨listed, hlisted, hprocess⟩ := exists_process_of_discover tokenizer houtput hdiscover
    exact exists_run_of_process hprocess hlisted duration
  | @stopped done rest bad written failed e last houtput hinput hfew hinputs hpassed hstops =>
    simp only [hinput, Bool.true_eq_false, if_false, if_neg (Nat.not_lt.mpr hfew)] at hdiscover
    obtain ⟨listed, hlisted, hprocess⟩ := exists_process_of_discover tokenizer houtput hdiscover
    obtain ⟨number, reached, rfl, hdone⟩ := hpassed.exists_processAll_append 0
      ⟨[], [], (inputsIn session.files input).length, .zero⟩ hlisted (bad :: rest)
    obtain ⟨after, hafter, hbad⟩ := hstops.exists_processAll number (Results.push ⟨[], [], _, .zero⟩ written failed) rest
    rw [← hinputs] at hdone
    exact exists_run_of_process (hprocess.trans (hdone.trans hbad)) hafter duration
  | @finished written failed last houtput hinput hfew hpassed =>
    simp only [hinput, Bool.true_eq_false, if_false, if_neg (Nat.not_lt.mpr hfew)] at hdiscover
    obtain ⟨listed, hlisted, hprocess⟩ := exists_process_of_discover tokenizer houtput hdiscover
    obtain ⟨after, rfl, hall⟩ := hpassed.exists_processAll 0 ⟨[], [], (inputsIn session.files input).length, .zero⟩ hlisted
    exact exists_run_of_process (hprocess.trans hall) rfl duration

theorem exists_ended (tokenizer : Tokenizer) (options : Options) (input output : String) (duration : Duration) (files : Tree) :
    ∃ result last, Ended tokenizer options input output duration files result last := by
  cases houtput : files.isDirectory output with
  | false => exact ⟨_, _, .noOutput houtput⟩
  | true =>
    cases hinput : files.isDirectory input with
    | false => exact ⟨_, _, .noInput houtput hinput⟩
    | true =>
      rcases Nat.lt_or_ge options.fileLimit (inputsIn files input).length with hmany | hfew
      · exact ⟨_, _, .tooMany houtput hinput hmany⟩
      rcases exists_passed tokenizer options output files (inputsIn files input) with
        ⟨written, failed, last, hpassed⟩ | ⟨done, bad, rest, written, failed, last, e, hinputs, hpassed, hstops⟩
      · exact ⟨_, _, .finished houtput hinput hfew hpassed⟩
      · exact ⟨_, _, .stopped houtput hinput hfew hinputs hpassed hstops⟩

/-- A batch comes to what follows from its files, and to nothing else. -/
theorem run_iff : (∃ after, (run tokenizer options input output duration).run session = (result, after) ∧ after.files = last) ↔
    Ended tokenizer options input output duration session.files result last := by
  constructor
  · rintro ⟨after, hrun, rfl⟩
    obtain ⟨result', last', hended⟩ := exists_ended tokenizer options input output duration session.files
    obtain ⟨after', hrun', rfl⟩ := hended.exists_run
    obtain ⟨rfl, rfl⟩ := Prod.ext_iff.mp (hrun.symm.trans hrun')
    exact hended
  · exact Ended.exists_run

end Lexeme.Batch
