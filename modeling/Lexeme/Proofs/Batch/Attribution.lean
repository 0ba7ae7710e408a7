import Lexeme.Proofs.Batch.Failures
import Lexeme.Proofs.Log.Attribution

/-!
# Which input an event of a batch concerns

A batch enters a file when it begins to process an input and leaves it when that input has been processed, whatever has
become of it. So the course of a batch alternates (`Course`): while an input is being processed everything that is reported
concerns that input, and in between, at the beginning and at the end everything concerns none.

What is kept by composition is shown of reports first (`Keeps`), then of one input (`Processed.of_run`), and then of all
inputs by induction on them (`exists_course_of_processAll`).
-/

namespace Lexeme.Batch

open Log (CurrentFile Adds)
open Log.Event (Neutral)
open Logged (Attributes)

variable {tokenizer : Tokenizer} {options : Options} {input output directory : String} {duration : Duration}
  {session mid after : Session}

/-! ## Work that keeps to a file -/

/-- Whether work on a session that is done while a file is being processed, or outside any, leaves it so and reports only
events that concern the file. -/
def Keeps {α : Type} (file : Option CurrentFile) (work : Work α) : Prop :=
  ∀ session : Session, session.log.file = file → Adds file session.log (work.run session).2.log

namespace Keeps

variable {α β : Type} {file : Option CurrentFile}

theorem pure (a : α) : Keeps file (Pure.pure a : Work α) := fun _ h => .refl h

theorem bind {x : Work α} {f : α → Work β} (hx : Keeps file x) (hf : ∀ a, Keeps file (f a)) : Keeps file (x >>= f) :=
  fun session h => (hx session h).trans (hf _ _ (hx session h).after)

theorem logged {work : Files.Tree → Logged α} (h : ∀ files, Attributes file (work files)) : Keeps file (logged work) :=
  fun session hfile => h session.files session.log hfile

/-- Work that does not touch the log keeps to any file. -/
theorem of_log_eq {work : Work α} (h : ∀ session, (work.run session).2.log = session.log) : Keeps file work := by
  intro session hfile
  rw [h]
  exact .refl hfile

theorem adds {work : Work α} (h : Keeps file work) {result : α} (hrun : work.run session = (result, after))
    (hfile : session.log.file = file) : Adds file session.log after.log := by
  have hadds := h session hfile
  rwa [hrun] at hadds

end Keeps

/-! ## One input -/

theorem keeps_report (file : CurrentFile) (e : Log.Event) : Keeps (some file) (logged fun _ => Log.report e) :=
  .logged fun _ => (Attributes.compositional file).report e

theorem keeps_writeArtifact (file : CurrentFile) (path : String) (records : List Record) :
    Keeps (some file) (writeArtifact path records) := by
  refine .bind (.of_log_eq fun _ => rfl) fun current => ?_
  split
  · exact .logged fun _ => (Attributes.compositional file).bind ((Attributes.compositional file).report _) fun _ => .pure _
  · refine .bind (.of_log_eq fun _ => rfl) fun _ => ?_
    exact .bind (keeps_report file _) fun _ => .pure _

theorem keeps_processFile (file : CurrentFile) (tokenizer : Tokenizer) (options : Options) (directory input : String) :
    Keeps (some file) (processFile tokenizer options directory input) := by
  refine .bind (.logged fun files => (Attributes.compositional file).fileRecords tokenizer files input) fun found => ?_
  split
  · exact .pure _
  · dsimp only
    split
    · refine .bind (.of_log_eq fun _ => rfl) fun _ => .bind (keeps_writeArtifact file _ _) fun written => ?_
      split <;> exact .pure _
    · refine .bind (keeps_writeArtifact file _ _) fun written => ?_
      split <;> exact .pure _

/-- Whether an input with the given number is processed between two sessions, outside any file before and after, and
everything that is reported meanwhile concerns that input. -/
structure Processed (tokenizer : Tokenizer) (options : Options) (directory : String) (number : Nat) (input : String)
    (session : Session) (result : Except Error Outcome) (left : Session) : Prop where
  run_eq : (processNumbered tokenizer options directory number input).run session = (result, left)
  before : session.log.file = none
  after : left.log.file = none
  exists_new : ∃ new, left.log.history = session.log.history ++ new ∧ ∀ e ∈ new, e.Concerns (some ⟨input, number⟩)

theorem Processed.of_run {number : Nat} {result : Except Error Outcome}
    (h : (processNumbered tokenizer options directory number input).run session = (result, after))
    (hfile : session.log.file = none) : Processed tokenizer options directory number input session result after := by
  obtain ⟨_, entered, hentered, hrest⟩ := run_bind_eq_iff.mp h
  obtain ⟨found, processed, hprocessed, hrest⟩ := run_bind_eq_iff.mp hrest
  obtain ⟨_, left, hleft, hrest⟩ := run_bind_eq_iff.mp hrest
  obtain ⟨rfl, rfl⟩ := run_pure_eq_iff.mp hrest
  cases hentered
  cases hleft
  have hadds := (keeps_processFile ⟨input, number⟩ tokenizer options directory input).adds hprocessed rfl
  exact ⟨h, hfile, rfl, hadds.exists_new⟩

/-! ## Outside the inputs -/

theorem attributes_refuse {α : Type} {details : List (String × String)} (h : Neutral details) (e : Error) (message : String) :
    Attributes none (refuse e message details : Logged (Except Error α)) :=
  .bind (.neutral h) fun _ => .pure _

theorem attributes_requireDirectory (files : Files.Tree) (path : String) : Attributes none (requireDirectory files path) := by
  unfold requireDirectory
  split
  · exact .pure _
  · exact attributes_refuse (by simp [Neutral]) _ _

theorem attributes_skipDirectories (files : Files.Tree) (paths : List String) :
    Attributes none (skipDirectories files paths) := by
  induction paths with
  | nil => exact .pure _
  | cons path paths ih =>
    unfold skipDirectories
    split
    · exact .bind (.neutral (by simp [Neutral])) fun _ => ih
    · exact .bind ih fun _ => .pure _

theorem attributes_discover (options : Options) (files : Files.Tree) (directory : String) :
    Attributes none (discover options files directory) := by
  refine .bind (attributes_requireDirectory files directory) fun found => ?_
  split
  · exact .pure _
  · split
    · exact attributes_refuse (by simp [Neutral]) _ _
    · refine .bind (.bind (attributes_skipDirectories files _) fun _ => .pure _) fun paths => ?_
      split
      · exact attributes_refuse (by simp [Neutral]) _ _
      · exact .bind (.neutral (by simp [Neutral])) fun _ => .pure _

/-! ## The course of a batch -/

/-- Whether no file is being processed in two sessions, and what is reported from the one to the other concerns none. -/
def Outside (session after : Session) : Prop := Adds none session.log after.log

/-- What happens between two sessions: inputs are processed, the first of which has the given number, with the results that
are listed, and before and after each nothing is reported that concerns a file. -/
inductive Course (tokenizer : Tokenizer) (options : Options) (directory : String) :
    Nat → List (String × Except Error Outcome) → Session → Session → Prop
  | outside {number : Nat} {session after : Session} (h : Outside session after) :
      Course tokenizer options directory number [] session after
  | input {number : Nat} {input : String} {result : Except Error Outcome}
      {processed : List (String × Except Error Outcome)} {session entered left after : Session}
      (hbefore : Outside session entered) (hinput : Processed tokenizer options directory number input entered result left)
      (hrest : Course tokenizer options directory (number + 1) processed left after) :
      Course tokenizer options directory number ((input, result) :: processed) session after

variable {number : Nat} {processed : List (String × Except Error Outcome)}

theorem Course.after_outside (h : Course tokenizer options directory number processed session mid)
    (hafter : Outside mid after) : Course tokenizer options directory number processed session after := by
  induction h with
  | outside h => exact .outside (h.trans hafter)
  | input hbefore hinput _ ih => exact .input hbefore hinput (ih hafter)

theorem Course.of_outside (hbefore : Outside session mid)
    (h : Course tokenizer options directory number processed mid after) :
    Course tokenizer options directory number processed session after := by
  cases h with
  | outside h => exact .outside (hbefore.trans h)
  | input hmid hinput hrest => exact .input (hbefore.trans hmid) hinput hrest

/-- No file is being processed at the end of a course. -/
theorem Course.file_eq (h : Course tokenizer options directory number processed session after) : after.log.file = none := by
  induction h with
  | outside h => exact h.after
  | input _ _ _ ih => exact ih

/-- Whether inputs have been processed in turn, with the results that are listed, until none was left or one ended the
batch. -/
inductive Finishes (options : Options) : List String → List (String × Except Error Outcome) → Except Error Results → Prop
  | all (results : Results) : Finishes options [] [] (.ok results)
  | ended {bad : String} {rest : List String} {e : Error} (h : isolated? options e = none) :
      Finishes options (bad :: rest) [(bad, .error e)] (.error e)
  | next {input : String} {inputs : List String} {outcome : Except Error Outcome}
      {processed : List (String × Except Error Outcome)} {result : Except Error Results}
      (h : ∀ e, outcome = .error e → isolated? options e ≠ none) (hrest : Finishes options inputs processed result) :
      Finishes options (input :: inputs) ((input, outcome) :: processed) result

theorem Finishes.map {inputs : List String} {result : Except Error Results} (h : Finishes options inputs processed result)
    (f : Results → Results) : Finishes options inputs processed (result.map f) := by
  induction h with
  | all results => exact .all _
  | ended h => exact .ended h
  | next h _ ih => exact .next h ih

/-- What is done outside the inputs keeps outside. -/
theorem outside_of_logged {α : Type} {work : Files.Tree → Logged α} (h : ∀ files, Attributes none (work files)) {a : α}
    (hrun : (logged work).run session = (a, after)) (hfile : session.log.file = none) : Outside session after :=
  (Keeps.logged h).adds hrun hfile

/-- Inputs that are processed one after the other make a course. -/
theorem exists_course_of_processAll {inputs : List String} {results : Results} {result : Except Error Results}
    (h : (processAll tokenizer options directory number results inputs).run session = (result, after))
    (hfile : session.log.file = none) :
    ∃ processed, Course tokenizer options directory number processed session after ∧
      Finishes options inputs processed result := by
  -- on the inputs: what is left is a course of its own, from the session that the first input and its warning leave
  induction inputs generalizing number results session with
  | nil =>
    obtain ⟨rfl, rfl⟩ := run_pure_eq_iff.mp h
    exact ⟨[], .outside (.refl hfile), .all _⟩
  | cons input inputs ih =>
    obtain ⟨outcome, left, hinput, hrest⟩ := run_bind_eq_iff.mp h
    have hprocessed := Processed.of_run hinput hfile
    cases outcome with
    | ok outcome =>
      obtain ⟨processed, hcourse, hfinishes⟩ := ih hrest hprocessed.after
      exact ⟨_, .input (.refl hfile) hprocessed hcourse, .next nofun hfinishes⟩
    | error e =>
      dsimp only at hrest
      cases hisolated : isolated? options e with
      | none =>
        rw [hisolated] at hrest
        obtain ⟨rfl, rfl⟩ := run_pure_eq_iff.mp hrest
        exact ⟨_, .input (.refl hfile) hprocessed (.outside (.refl hprocessed.after)), .ended hisolated⟩
      | some failed =>
        rw [hisolated] at hrest
        obtain ⟨_, warned, hwarned, hrest⟩ := run_bind_eq_iff.mp hrest
        have houtside : Outside left warned :=
          outside_of_logged (fun _ => .neutral (by simp [Neutral])) hwarned hprocessed.after
        obtain ⟨processed, hcourse, hfinishes⟩ := ih hrest houtside.after
        refine ⟨_, .input (.refl hfile) hprocessed (.of_outside houtside hcourse), .next ?_ hfinishes⟩
        intro e' he
        cases he
        simp [hisolated]

/-! ## The whole run -/

/-- The inputs that a batch with the given files has processed when it ends: none if it has not begun, otherwise those in
the input directory, up to the last or to one that ends the batch. -/
def Covers (options : Options) (input output : String) (files : Files.Tree)
    (processed : List (String × Except Error Outcome)) (result : Except Error Results) : Prop :=
  (∃ e, Unstarted options input output files e ∧ processed = [] ∧ result = .error e) ∨
    Finishes options (inputsIn files input) processed result

theorem exists_course_of_process {result : Except Error Results}
    (h : (process tokenizer options input output).run session = (result, after)) (hfile : session.log.file = none) :
    ∃ processed, Course tokenizer options output 0 processed session after ∧
      Covers options input output session.files processed result := by
  obtain ⟨_, begun, hbegun, h⟩ := run_bind_eq_iff.mp h
  have hbefore : Outside session begun := outside_of_logged (fun _ => .neutral (by simp [Neutral])) hbegun hfile
  obtain ⟨required, checked, hrequired, h⟩ := run_bind_eq_iff.mp h
  have hchecked : Outside session checked :=
    hbefore.trans (outside_of_logged (attributes_requireDirectory · output) hrequired hbefore.after)
  have hfound := (run_logged hrequired).1
  rw [(run_logged hbegun).2, requireDirectory_run_fst] at hfound
  cases required with
  | error e =>
    obtain ⟨rfl, rfl⟩ := run_pure_eq_iff.mp h
    split_ifs at hfound with houtput
    cases hfound
    exact ⟨[], .outside hchecked, .inl ⟨_, .noOutput (eq_false_of_ne_true houtput), rfl, rfl⟩⟩
  | ok =>
    obtain ⟨discovered, listed, hdiscovered, h⟩ := run_bind_eq_iff.mp h
    have hlisted : Outside session listed :=
      hchecked.trans (outside_of_logged (attributes_discover options · input) hdiscovered hchecked.after)
    have hpaths := (run_logged hdiscovered).1
    rw [(run_logged hrequired).2, (run_logged hbegun).2, discover_run_fst] at hpaths
    cases discovered with
    | error e =>
      obtain ⟨rfl, rfl⟩ := run_pure_eq_iff.mp h
      refine ⟨[], .outside hlisted, .inl ⟨e, ?_, rfl, rfl⟩⟩
      split_ifs at hpaths with hinput hmany
      · cases hpaths
        exact .noInput hinput
      · cases hpaths
        exact .tooMany hmany
    | ok paths =>
      obtain ⟨processed, hcourse, hfinishes⟩ := exists_course_of_processAll h hlisted.after
      split_ifs at hpaths
      cases hpaths
      exact ⟨processed, .of_outside hlisted hcourse, .inr hfinishes⟩

/-- A batch that begins outside any file alternates between its inputs and what is outside them: whatever is reported while
an input is being processed concerns that input, whatever is reported before the first, after the last or in between
concerns none, and no file is being processed when the batch ends. -/
theorem run_attributes {result : Except Error Results} (hfile : session.log.file = none)
    (h : (run tokenizer options input output duration).run session = (result, after)) :
    ∃ processed, Course tokenizer options output 0 processed session after ∧ after.log.file = none ∧
      Covers options input output session.files processed result := by
  obtain ⟨reached, done, hprocess, h⟩ := run_bind_eq_iff.mp h
  obtain ⟨processed, hcourse, hcovers⟩ := exists_course_of_process hprocess hfile
  cases reached with
  | error e =>
    obtain ⟨rfl, rfl⟩ := run_pure_eq_iff.mp h
    exact ⟨processed, hcourse, hcourse.file_eq, hcovers⟩
  | ok results =>
    obtain ⟨_, concluded, hconcluded, h⟩ := run_bind_eq_iff.mp h
    obtain ⟨rfl, rfl⟩ := run_pure_eq_iff.mp h
    have hafter : Outside done after :=
      outside_of_logged (fun _ => .neutral (by simp [Neutral])) hconcluded hcourse.file_eq
    refine ⟨processed, hcourse.after_outside hafter, hafter.after, .inr ?_⟩
    rcases hcovers with ⟨e, -, -, he⟩ | hfinishes
    · cases he
    · exact hfinishes.map ({ · with duration })

/-- The three inputs, with a log that keeps every event. -/
def attentive : Session := { threeInputs with log := .empty .debug }

/-- A batch is outside any file again when it has failed on a device. -/
theorem run_attributes_device :
    ∃ after processed, (run wordTokenizer .default "in" "out" .zero).run attentive =
        (.error (.file "in/b.py" (.input (.notAFile "in/b.py"))), after) ∧
      Course wordTokenizer .default "out" 0 processed attentive after ∧ after.log.file = none ∧
      Finishes .default ["in/a.py", "in/b.py", "in/c.py"] processed
        (.error (.file "in/b.py" (.input (.notAFile "in/b.py")))) := by
  have hinputs : inputsIn attentive.files "in" = ["in/a.py"] ++ "in/b.py" :: ["in/c.py"] := inputsIn_threeInputs
  have hended : Ended wordTokenizer .default "in" "out" .zero attentive.files _ _ :=
    .stopped (by cbv) (by cbv) (by rw [hinputs]; decide) hinputs
      (.written hasRecords_threeInputs (write_threeInputs _) (.nil _)) (.file (hasFailure_threeInputs _) (.inl rfl))
  obtain ⟨after, hrun, -⟩ := hended.exists_run
  obtain ⟨processed, hcourse, hleft, hcovers⟩ := run_attributes rfl hrun
  refine ⟨after, processed, hrun, hcourse, hleft, ?_⟩
  rcases hcovers with ⟨e, hunstarted, -, he⟩ | hfinishes
  · cases he
    cases hunstarted
  · rwa [hinputs] at hfinishes

end Lexeme.Batch
