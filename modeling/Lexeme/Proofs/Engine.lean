import Lexeme.Engine
import Lexeme.Proofs.Matcher
import Lexeme.Proofs.Python.Lossless
import Lexeme.Proofs.Python.Refusals

/-!
# Positions in all engines

Whatever engine cuts a text, its tokens stand in the text where their positions say, and the place that an error names is
counted in the same way (`positions_exact`). For a grammar nothing is needed but that its matchers cut the text into
consecutive segments.
-/

namespace Lexeme.Engine

/-- Wherever the matchers cut a text, the tokens stand in it, and the error names the character after the last segment. -/
theorem standIn_of_matchers (matchers : List Matcher) (source : String) :
    (∀ ts, Matcher.tokens matchers source = .ok ts → StandIn source.toList ts) ∧
      ∀ e, Matcher.tokens matchers source = .error e → ∃ before c rest p, source.toList = before ++ c :: rest ∧
        p.IsAfter before ∧ e = .noViableAlternative p (String.singleton c) := by
  obtain ⟨left, hfailure, hjoined⟩ := Matcher.exists_joined_cut matchers source.toList
  refine ⟨fun ts h => ?_, fun e h => ?_⟩
  · obtain ⟨hnone, rfl⟩ := Cut.tokens_eq_ok_iff.mp h
    obtain rfl := List.head?_eq_none_iff.mp (hfailure.symm.trans hnone)
    have hstand := @Segment.standIn_emitted _ Matcher.place (Matcher.cut matchers source.toList).segments
    rwa [← List.append_nil (Segment.joined _), hjoined] at hstand
  · obtain ⟨c, hc, rfl⟩ := Cut.tokens_eq_error_iff.mp h
    obtain ⟨rest, rfl⟩ := List.head?_eq_some_iff.mp (hfailure.symm.trans hc)
    exact ⟨_, c, rest, _, hjoined.symm, Position.isAfter_advanceBy _, rfl⟩

/-- The positions of tokens and of errors are exact in the built-in engine and in that of every lexer. -/
theorem positions_exact (source : String) :
    (∀ ts, (builtIn .python3).tokens source = .ok ts → StandIn source.toList ts) ∧
      (∀ e, (builtIn .python3).tokens source = .error e → Python.Blames source.toList e) ∧
      ∀ lexer, (∀ ts, (ofLexer lexer).tokens source = .ok ts → StandIn source.toList ts) ∧
        ∀ e, (ofLexer lexer).tokens source = .error e → ∃ before c rest p, source.toList = before ++ c :: rest ∧
          p.IsAfter before ∧ e = .noViableAlternative p (String.singleton c) := by
  refine ⟨fun ts h => ?_, fun e h => Python.blames_of_tokens h, fun lexer => standIn_of_matchers lexer.matchers source⟩
  obtain ⟨segments, last, hrun, rfl⟩ := Python.exists_run_of_tokens h
  have hjoined : Segment.joined (segments ++ Python.finish last) = source.toList := by
    rw [Segment.joined_append, Python.joined_finish, hrun.joined_append]
  exact hjoined ▸ Segment.standIn_emitted _

/-- A block that is closed by empty tokens and a string with a letter before its quote, after a character of two bytes; and
that character, when no rule describes it. -/
theorem positions_exact_accents :
    (∃ ts, (builtIn .python3).tokens "if é\n\ty" = .ok ts ∧
      ts.map (·.position) = [⟨0, 1, 1⟩, ⟨2, 1, 3⟩, ⟨3, 1, 4⟩, ⟨5, 1, 5⟩, ⟨6, 2, 1⟩, ⟨7, 2, 2⟩, ⟨8, 2, 3⟩, ⟨8, 2, 3⟩] ∧
      StandIn "if é\n\ty".toList ts) ∧
    ((builtIn .python3).tokens "é b'\n" = .error (.unterminatedString ⟨3, 1, 3⟩) ∧
      Python.Blames "é b'\n".toList (.unterminatedString ⟨3, 1, 3⟩)) ∧
    ∃ lexer, ((Grammar.lexerOfSource "grammar G; s : A ;").run (.empty .error)).1 = .ok lexer ∧
      (ofLexer lexer).tokens "é" = .error (.noViableAlternative ⟨0, 1, 1⟩ "é") ∧
      ∃ before c rest p, "é".toList = before ++ c :: rest ∧ p.IsAfter before ∧
        (.noViableAlternative ⟨0, 1, 1⟩ "é" : LexingError) = .noViableAlternative p (String.singleton c) := by
  refine ⟨?_, ?_, ?_⟩
  · have hpositions : ((builtIn .python3).tokens "if é\n\ty").toOption.map (·.map (·.position)) =
        some [⟨0, 1, 1⟩, ⟨2, 1, 3⟩, ⟨3, 1, 4⟩, ⟨5, 1, 5⟩, ⟨6, 2, 1⟩, ⟨7, 2, 2⟩, ⟨8, 2, 3⟩, ⟨8, 2, 3⟩] := by
      decide +kernel
    cases h : (builtIn .python3).tokens "if é\n\ty" with
    | error e => rw [h] at hpositions; cases hpositions
    | ok ts =>
      rw [h] at hpositions
      exact ⟨ts, rfl, Option.some.inj hpositions, (positions_exact _).1 ts h⟩
  · have herror : (builtIn .python3).tokens "é b'\n" = .error (.unterminatedString ⟨3, 1, 3⟩) := by decide +kernel
    exact ⟨herror, (positions_exact _).2.1 _ herror⟩
  · have hlexer : (match ((Grammar.lexerOfSource "grammar G; s : A ;").run (.empty .error)).1 with
      | .ok lexer => decide ((ofLexer lexer).tokens "é" = .error (.noViableAlternative ⟨0, 1, 1⟩ "é"))
      | .error _ => false) = true := by decide +kernel
    split at hlexer
    · next lexer h =>
      have herror := of_decide_eq_true hlexer
      exact ⟨lexer, h, herror, ((positions_exact _).2.2 lexer).2 _ herror⟩
    · cases hlexer

end Lexeme.Engine
