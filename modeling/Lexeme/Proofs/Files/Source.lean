import Lexeme.Files.Source
import Lexeme.Proofs.Position
import Lexeme.Proofs.Text.Bytes

/-!
# What is read from a path

A source is read exactly where a path leads to a file that holds a text within the limit, whatever has been reported before
(`readSource_eq_ok_iff`). So sources are never too long for counters of 32 bits: wherever a position is counted in a source,
the counters say its line and its column (`agree_of_readSource`).
-/

namespace Lexeme.Files

variable {t : Tree} {limit : Nat} {path : String} {source : Source} {log : Log}

/-- What is read from a path, without what is reported. -/
def sourceAt (t : Tree) (limit : Nat) (path : String) : Except ReadError Source :=
  match t.lookup path with
  | .error failure => .error (.ofFailure path failure)
  | .ok (.file bytes) =>
    if limit < bytes.size then .error (.tooLarge path bytes.size limit)
    else (String.fromUTF8? bytes).elim (.error (.invalidEncoding path)) fun content => .ok ⟨path, bytes.size, content⟩
  | .ok _ => .error (.notAFile path)

theorem run_readSource_fst (t : Tree) (limit : Nat) (path : String) (log : Log) :
    ((readSource t limit path).run log).1 = sourceAt t limit path := by
  unfold readSource sourceAt
  cases hlookup : t.lookup path with
  | error failure => rfl
  | ok node =>
    cases node with
    | file bytes =>
      have htext : t.readText path = (String.fromUTF8? bytes).elim (.error .notText) .ok := by
        rw [Tree.readText, Tree.read, hlookup]
      dsimp only
      split_ifs
      · rfl
      · rw [htext]
        cases String.fromUTF8? bytes with
        | none => rfl
        | some content =>
          dsimp only [Option.elim]
          split_ifs <;> rfl
    | _ => rfl

theorem fromUTF8?_eq_some_iff {bytes : ByteArray} {content : String} :
    String.fromUTF8? bytes = some content ↔ bytes = content.toUTF8 := by
  unfold String.fromUTF8?
  split_ifs with hvalid
  · constructor
    · rintro h
      rw [← Option.some.inj h]
      rfl
    · rintro rfl
      rfl
  · refine iff_of_false nofun ?_
    rintro rfl
    exact hvalid content.isValidUTF8

/-- A source is read exactly from a file that holds a text within the limit. -/
theorem readSource_eq_ok_iff :
    ((readSource t limit path).run log).1 = .ok source ↔
      t.lookup path = .ok (.file source.content.toUTF8) ∧ source.path = path ∧
        source.size = source.content.toUTF8.size ∧ source.size ≤ limit := by
  rw [run_readSource_fst, sourceAt]
  constructor
  · intro h
    split at h
    · cases h
    · next bytes hlookup =>
      split_ifs at h with hlarge
      cases htext : String.fromUTF8? bytes with
      | none => rw [htext] at h; cases h
      | some content =>
        rw [htext] at h
        obtain rfl := Except.ok.inj h
        obtain rfl := fromUTF8?_eq_some_iff.mp htext
        exact ⟨hlookup, rfl, rfl, Nat.not_lt.mp hlarge⟩
    · cases h
  · rintro ⟨hlookup, rfl, hsize, hlimit⟩
    rw [hlookup]
    dsimp only
    rw [if_neg (by omega), fromUTF8?_eq_some_iff.mpr rfl, ← hsize]
    rfl

/-- Counters of 32 bits say line and column everywhere in a source, if its limit is less than what they can count to. -/
theorem agree_of_readSource (hlimit : limit + 1 < UInt32.size) (h : ((readSource t limit path).run log).1 = .ok source)
    {before : List Char} (hbefore : before <+: source.content.toList) :
    (Counters.start.advanceBy before).Agree (Position.start.advanceBy before) := by
  obtain ⟨-, -, hsize, hsmall⟩ := readSource_eq_ok_iff.mp h
  have hlength : before.length ≤ limit := calc
    before.length ≤ source.content.toList.length := hbefore.length_le
    _ ≤ Text.byteCount source.content.toList := Text.length_le_byteCount _
    _ = source.size := (Text.byteCount_toList _).trans hsize.symm
    _ ≤ limit := hsmall
  exact Counters.agree_advanceBy (by omega)

/-- Inputs are never too long. -/
theorem agree_of_readInput (h : ((readInput t path).run log).1 = .ok source)
    {before : List Char} (hbefore : before <+: source.content.toList) :
    (Counters.start.advanceBy before).Agree (Position.start.advanceBy before) :=
  agree_of_readSource (by decide) h hbefore

end Lexeme.Files
