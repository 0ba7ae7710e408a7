import Lexeme.Proofs.Batch.Artifacts
import Mathlib.Data.String.Basic

/-!
# Batches that fail

A batch that does not isolate failures leaves the files as they are if it does not begin. If it fails on an input, the
inputs before it have been turned into outputs, one after the other, and nothing else has changed; the error is that of
the input (`run_aborts`). A path that no output leads to is read as it was when the batch began
(`Written.fileRecords_eq`).
-/

namespace Lexeme.Batch

open Files (Tree)

variable {tokenizer : Tokenizer} {options : Options} {input output : String} {duration : Duration} {session after : Session}
  {files last : Tree} {written : List (Outcome × List Record)}

/-! ## Inputs as they were -/

theorem pairwise_inputsIn (files : Tree) (directory : String) : (inputsIn files directory).Pairwise (· ≤ ·) := by
  simpa only [inputsIn, decide_eq_true_eq] using @List.pairwise_mergeSort _ (fun a b : String => decide (a ≤ b))
    (fun a b c hab hbc => decide_eq_true (le_trans (of_decide_eq_true hab) (of_decide_eq_true hbc)))
    (fun a b => by simpa using le_total a b) _

/-- What a file has to say depends on nothing but what is found there. -/
theorem fileRecords_congr {path : String} (h : files.lookup path = last.lookup path) (tokenizer : Tokenizer) :
    tokenizer.fileRecords files path = tokenizer.fileRecords last path := by
  unfold Tokenizer.fileRecords Files.readInput Files.readSource Tree.readText Tree.read
  rw [h]

/-- Whether a path leads to a place that none of some outputs leads to. -/
def Untouched (files last : Tree) (written : List (Outcome × List Record)) (path : String) : Prop :=
  ∃ place, files.place? path = some place ∧ ∀ w ∈ written, last.place? w.1.output ≠ some place

theorem Written.grows (h : Written tokenizer output files written last) : files.Grows last := .of_writeAll h.writeAll

theorem Written.node?_eq (h : Written tokenizer output files written last) {place : Files.Place}
    (hplace : ∀ w ∈ written, last.place? w.1.output ≠ some place) : last.node? place = files.node? place := by
  refine Tree.node?_eq_of_writeAll h.writeAll fun w hw => ?_
  obtain ⟨v, hv, rfl⟩ := List.mem_map.mp hw
  exact hplace v hv

/-- A path that no output leads to is read as it was. -/
theorem Written.fileRecords_eq (h : Written tokenizer output files written last) {path : String}
    (hpath : Untouched files last written path) : tokenizer.fileRecords last path = tokenizer.fileRecords files path := by
  obtain ⟨place, hplace, hother⟩ := hpath
  refine fileRecords_congr ?_ tokenizer
  rw [Tree.lookup_eq hplace, Tree.lookup_eq (h.grows.place?_eq hplace), h.node?_eq hother]

/-- An input that no output leads to had its records from the beginning. -/
theorem Written.hasRecords (h : Written tokenizer output files written last) :
    ∀ w ∈ written, Untouched files last written w.1.input → HasRecords tokenizer files w.1.input w.2 := by
  induction h with
  | nil => nofun
  | @cons files mid last input records rest hrecords hwrite hrest ih =>
    intro w hw huntouched
    rcases List.mem_cons.mp hw with rfl | hw
    · exact hrecords
    obtain ⟨place, hplace, hother⟩ := huntouched
    have hfirst := Written.cons hrecords hwrite (.nil mid)
    have hapart : Untouched files mid [(⟨input, outputPath input output, records.length⟩, records)] w.1.input := by
      refine ⟨place, hplace, fun v hv hsame => ?_⟩
      exact hother v (by simp [List.mem_singleton.mp hv]) (hrest.grows.place?_eq hsame)
    have hrecords' := ih w hw
      ⟨place, hfirst.grows.place?_eq hplace, fun v hv => hother v (List.mem_cons_of_mem _ hv)⟩
    intro log
    rw [← hfirst.fileRecords_eq hapart]
    exact hrecords' log

/-! ## Batches that do not isolate failures -/

theorem Passed.eq_of_strict {inputs : List String} {failed : List (String × TokenizingError)}
    (h : Passed tokenizer options output files inputs written failed last) (hstrict : options.isolateFailures = false) :
    failed = [] ∧ inputs = written.map (·.1.input) := by
  induction h with
  | nil => exact ⟨rfl, rfl⟩
  | written _ _ _ ih => exact ⟨ih.1, congrArg _ ih.2⟩
  | failed _ hisolated => simp [hstrict] at hisolated

/-- Whether a batch has failed on the input `bad`, with an error of that input: the inputs before it have been turned into
outputs, nothing else has changed, and the inputs in `rest` are left. -/
structure FailedOn (tokenizer : Tokenizer) (input output : String) (files : Tree) (e : Error) (last : Tree)
    (written : List (Outcome × List Record)) (bad : String) (rest : List String) : Prop where
  inputs : inputsIn files input = written.map (·.1.input) ++ bad :: rest
  ascending : (inputsIn files input).Pairwise (· ≤ ·)
  outputs : Written tokenizer output files written last
  files_eq : files.writeAll (written.map writeOf) = .ok last
  kept : ∀ place, (∀ w ∈ written, last.place? w.1.output ≠ some place) → last.node? place = files.node? place
  records : ∀ w ∈ written, Untouched files last written w.1.input → HasRecords tokenizer files w.1.input w.2
  cause : (∃ cause, HasFailure tokenizer last bad cause ∧ e = .file bad cause) ∨
    ∃ records failure, HasRecords tokenizer last bad records ∧
      last.write (outputPath bad output) (artifactBytes records) = .error failure ∧
      e = .outputWrite (outputPath bad output) failure.message
  unchanged : Untouched files last written bad → tokenizer.fileRecords last bad = tokenizer.fileRecords files bad

/-- Why a batch does not begin. -/
inductive Unstarted (options : Options) (input output : String) (files : Tree) : Error → Prop
  | noOutput (h : files.isDirectory output = false) : Unstarted options input output files (.directoryNotFound output)
  | noInput (h : files.isDirectory input = false) : Unstarted options input output files (.directoryNotFound input)
  | tooMany (h : options.fileLimit < (inputsIn files input).length) :
      Unstarted options input output files (.tooManyFiles (inputsIn files input).length options.fileLimit)

/-- A batch that does not isolate failures and ends with an error has not begun and changed nothing, or has failed on one
of the inputs in ascending order and written the artifacts of those before it. -/
theorem run_aborts (hstrict : options.isolateFailures = false) {e : Error}
    (h : (run tokenizer options input output duration).run session = (.error e, after)) :
    Unstarted options input output session.files e ∧ after.files = session.files ∨
      ∃ written bad rest, FailedOn tokenizer input output session.files e after.files written bad rest := by
  have hended := run_iff.mp ⟨after, h, rfl⟩
  generalize hlast : after.files = last at hended
  cases hended with
  | noOutput houtput => exact .inl ⟨.noOutput houtput, rfl⟩
  | noInput _ hinput => exact .inl ⟨.noInput hinput, rfl⟩
  | tooMany _ _ hmany => exact .inl ⟨.tooMany hmany, rfl⟩
  | @stopped done rest bad written failed e last _ _ _ hinputs hpassed hstops =>
    obtain ⟨rfl, rfl⟩ := hpassed.eq_of_strict hstrict
    have hwritten := hpassed.toWritten
    refine .inr ⟨written, bad, rest, ?_⟩
    exact {
      inputs := hinputs
      ascending := pairwise_inputsIn _ _
      outputs := hwritten
      files_eq := hwritten.writeAll
      kept := fun place hplace => hwritten.node?_eq hplace
      records := hwritten.hasRecords
      cause := by
        cases hstops with
        | file hcause => exact .inl ⟨_, hcause, rfl⟩
        | write hrecords hwrite => exact .inr ⟨_, _, hrecords, hwrite, rfl⟩
      unchanged := hwritten.fileRecords_eq }

/-- Two files, with a device between them that cannot be read, and a directory for the outputs. -/
def threeInputs : Session where
  files := ⟨[(["in"], .directory), (["in", "a.py"], .file "hello".toUTF8), (["in", "b.py"], .device),
    (["in", "c.py"], .file "world".toUTF8), (["out"], .directory)], [], by decide⟩
  log := .empty .error
  shown := []

/-- The files of the three inputs with an output for the first. -/
def firstWritten (content : ByteArray) : Tree := threeInputs.files.put ["out", "a.json"] (.file content)

theorem inputsIn_threeInputs : inputsIn threeInputs.files "in" = ["in/a.py", "in/b.py", "in/c.py"] := by
  cbv

theorem hasRecords_threeInputs : HasRecords wordTokenizer threeInputs.files "in/a.py" [⟨"WORD", "hello"⟩] :=
  .of_word (by cbv) (by decide +kernel)

theorem write_threeInputs (content : ByteArray) :
    threeInputs.files.write (outputPath "in/a.py" "out") content = .ok (firstWritten content) := by
  have hname : outputPath "in/a.py" "out" = "out/a.json" := by cbv
  have hplace : threeInputs.files.place? "out/a.json" = some ["out", "a.json"] := by cbv
  exact hname ▸ Tree.write_of_vacant hplace (by cbv) content

/-- The output of the first input is none of the other inputs. -/
theorem lookup_firstWritten (content : ByteArray) {path : String} {place : Files.Place}
    (hplace : threeInputs.files.place? path = some place) (hother : place ≠ ["out", "a.json"]) :
    (firstWritten content).lookup path = threeInputs.files.lookup path := by
  have hname : threeInputs.files.place? (outputPath "in/a.py" "out") = some ["out", "a.json"] := by cbv
  refine Tree.lookup_of_write (write_threeInputs content) hplace ?_
  rw [hname]
  exact fun hsame => hother (Option.some.inj hsame).symm

theorem hasFailure_threeInputs (content : ByteArray) :
    HasFailure wordTokenizer (firstWritten content) "in/b.py" (.input (.notAFile "in/b.py")) := by
  have hplace : threeInputs.files.place? "in/b.py" = some ["in", "b.py"] := by cbv
  intro log
  rw [fileRecords_congr (lookup_firstWritten content hplace (by decide))]
  exact (Logged.Steady.fileRecords _ _ _ log (.empty .error)).trans (by cbv)

/-- The batch fails on the device, after it has written the output of the file before it. -/
theorem run_aborts_threeInputs :
    ∃ after, (run wordTokenizer .default "in" "out" .zero).run threeInputs =
        (.error (.file "in/b.py" (.input (.notAFile "in/b.py"))), after) ∧
      after.files = firstWritten (artifactBytes [⟨"WORD", "hello"⟩]) ∧
      ∃ written bad rest, FailedOn wordTokenizer "in" "out" threeInputs.files (.file "in/b.py" (.input (.notAFile "in/b.py")))
        after.files written bad rest := by
  have hpassed : Passed wordTokenizer .default "out" threeInputs.files ["in/a.py"] _ _ _ :=
    .written hasRecords_threeInputs (write_threeInputs _) (.nil _)
  have hended : Ended wordTokenizer .default "in" "out" .zero threeInputs.files _ _ :=
    .stopped (by cbv) (by cbv) (by rw [inputsIn_threeInputs]; decide) inputsIn_threeInputs hpassed
      (.file (hasFailure_threeInputs _) (.inl rfl))
  obtain ⟨after, hrun, hlast⟩ := hended.exists_run
  refine ⟨after, hrun, hlast, ?_⟩
  rcases run_aborts rfl hrun with ⟨hunstarted, -⟩ | hfailed
  · cases hunstarted
  · exact hfailed

end Lexeme.Batch
