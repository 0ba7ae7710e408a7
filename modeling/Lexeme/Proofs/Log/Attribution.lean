import Lexeme.Proofs.Tokenizer

/-!
# Which file an event concerns

An event that is reported while a file is being processed names the file, and an error also gives its number
(`Log.Event.Concerns`). Reporting is the only thing that work does to a log, so what holds of one report holds of all
work that is composed of reports (`Logged.Attributes`): the work leaves the file as it is, and adds only events that
concern it. While a file is being processed that needs no condition, since its name replaces a detail of the same name.
Outside any file an event must not have such details itself.
-/

namespace Lexeme

namespace Log

/-! ## Details -/

namespace Event

/-- The value of a named detail. -/
def value? (e : Event) (name : String) : Option String := (e.details.find? (·.1 = name)).map Prod.snd

variable {e : Event} {name other value : String}

theorem find?_insertDetail_self (name value : String) (details : List (String × String)) :
    (insertDetail name value details).find? (·.1 = name) = some (name, value) := by
  fun_induction insertDetail name value details with
  | case1 => simp
  | case2 => simp
  | case3 => simp
  | case4 n v rest _ hne ih => rw [List.find?_cons_of_neg (by simpa using Ne.symm hne), ih]

theorem find?_insertDetail_of_ne (h : name ≠ other) (details : List (String × String)) :
    (insertDetail name value details).find? (·.1 = other) = details.find? (·.1 = other) := by
  fun_induction insertDetail name value details with
  | case1 => simp [h]
  | case2 => simp [h]
  | case3 v rest => simp [h]
  | case4 n v rest _ _ ih => rw [List.find?_cons, List.find?_cons, ih]

@[simp] theorem value?_detail_self : (e.detail name value).value? name = some value := by
  rw [value?, detail, find?_insertDetail_self]
  rfl

theorem value?_detail_of_ne (h : name ≠ other) : (e.detail name value).value? other = e.value? other := by
  rw [value?, detail, find?_insertDetail_of_ne h]
  rfl

/-- Details of other names do not change a detail. -/
theorem value?_detailed {details : List (String × String)} (h : ∀ d ∈ details, d.1 ≠ name) :
    (e.detailed details).value? name = e.value? name := by
  induction details generalizing e with
  | nil => rfl
  | cons d details ih =>
    have hrest : ((e.detail d.1 d.2).detailed details).value? name = (e.detail d.1 d.2).value? name :=
      ih fun d hd => h d (List.mem_cons_of_mem _ hd)
    exact hrest.trans (value?_detail_of_ne (h d List.mem_cons_self))

/-- What an event says about the file that it concerns: it names the file, and an error also gives its number. Outside any
file it says neither. -/
def Concerns (e : Event) : Option CurrentFile → Prop
  | none => e.value? "file" = none ∧ e.value? "file_id" = none
  | some file => e.value? "file" = some file.path ∧ (e.level = .error → e.value? "file_id" = some (toString file.number))

/-- Whether some details leave it open which file is concerned. -/
def Neutral (details : List (String × String)) : Prop := ∀ d ∈ details, d.1 ≠ "file" ∧ d.1 ≠ "file_id"

theorem concerns_none_of_neutral {details : List (String × String)} (he : e.Concerns none) (h : Neutral details) :
    (e.detailed details).Concerns none :=
  ⟨(value?_detailed fun d hd => (h d hd).1).trans he.1, (value?_detailed fun d hd => (h d hd).2).trans he.2⟩

/-- An event concerns the file that it is ascribed to. -/
theorem concerns_ascribe_some (e : Event) (file : CurrentFile) : (ascribe e (some file)).Concerns (some file) := by
  unfold ascribe
  dsimp only
  split
  · next herror =>
    exact ⟨by rw [value?_detail_of_ne (by decide), value?_detail_self], fun _ => value?_detail_self⟩
  · next hother => exact ⟨value?_detail_self, fun herror => absurd herror hother⟩

end Event

/-! ## What is reported from one log to another -/

/-- Whether the second log is a later one, the same file being processed in both, and every event that is new in it concerns
that file. -/
structure Adds (file : Option CurrentFile) (log later : Log) : Prop where
  before : log.file = file
  after : later.file = file
  exists_new : ∃ new, later.history = log.history ++ new ∧ ∀ e ∈ new, e.Concerns file

variable {file : Option CurrentFile} {log mid later : Log}

theorem Adds.refl (h : log.file = file) : Adds file log log := ⟨h, h, [], by simp, nofun⟩

theorem Adds.trans (h : Adds file log mid) (h' : Adds file mid later) : Adds file log later := by
  obtain ⟨new, hnew, hconcerns⟩ := h.exists_new
  obtain ⟨more, hmore, hconcerns'⟩ := h'.exists_new
  exact ⟨h.before, h'.after, new ++ more, by rw [hmore, hnew, List.append_assoc],
    List.forall_mem_append.mpr ⟨hconcerns, hconcerns'⟩⟩

theorem Adds.submit {e : Event} (hfile : log.file = file) (he : e.Concerns file) : Adds file log (log.submit e) := by
  unfold Log.submit
  split
  · exact ⟨hfile, hfile, [e], by simp [history, record], by simpa using he⟩
  · exact .refl hfile

end Log

/-! ## Work that reports -/

namespace Logged

open Log (CurrentFile Adds)

variable {α β : Type} {file : Option CurrentFile}

/-- Whether work that is done while a file is being processed, or outside any, leaves it so and reports only events that
concern the file. -/
def Attributes (file : Option CurrentFile) (work : Logged α) : Prop :=
  ∀ log : Log, log.file = file → Adds file log (work.run log).2

namespace Attributes

theorem pure (a : α) : Attributes file (Pure.pure a : Logged α) := fun _ h => .refl h

theorem bind {x : Logged α} {f : α → Logged β} (hx : Attributes file x) (hf : ∀ a, Attributes file (f a)) :
    Attributes file (x >>= f) := fun log h => (hx log h).trans (hf _ _ (hx log h).after)

theorem report {e : Log.Event} (h : (Log.ascribe e file).Concerns file) : Attributes file (Log.report e) := by
  intro log hfile
  subst hfile
  exact Adds.submit rfl h

/-- An event of which no detail says which file it concerns can be reported outside any file. -/
theorem neutral {level : Log.Level} {code message : String} {details : List (String × String)}
    (h : Log.Event.Neutral details) : Attributes none (Log.report ((Log.Event.make level code message).detailed details)) :=
  report (Log.Event.concerns_none_of_neutral ⟨rfl, rfl⟩ h)

/-- Whatever is reported while a file is being processed concerns it. -/
theorem compositional (file : CurrentFile) : Compositional (Attributes (some file)) :=
  ⟨pure, bind, fun e => report (Log.Event.concerns_ascribe_some e file)⟩

end Attributes

end Logged

end Lexeme
