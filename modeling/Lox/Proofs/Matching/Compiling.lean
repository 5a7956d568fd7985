import Lox.Proofs.Matching.Reading
import Lox.Proofs.Matching.Resolving
import Lox.Proofs.Syntax.Numbering
import Lox.Proofs.Syntax.Orderly
import Lox.Session

/-!
# Compiling with other numbers

A text compiles to matching programs, or has the same errors, whatever numbers are given to
its expressions and functions.
-/

namespace Lox

/-- Programs that match, with distances that agree. -/
structure Compiled.Matches (μ : Matching) (c c' : Compiled) : Prop where
  /-- The programs match. -/
  program : Stmt.MatchesAll μ c.program.statements c'.program.statements
  /-- Corresponding expressions have the same distance. -/
  locals : ∀ i i', μ.node i i' → c'.locals[i']? = c.locals[i]?

/-- Two compilations give matching programs or the same errors. -/
inductive CompiledAlike (μ : Matching) :
    Except (List CompileError) Compiled → Except (List CompileError) Compiled → Prop
  | ok {c c'} : c.Matches μ c' → CompiledAlike μ (.ok c) (.ok c')
  | error {errors} : CompiledAlike μ (.error errors) (.error errors)

variable {μ : Matching}

theorem compile_alike (hμ : μ.KeepsPlaces) (hone : μ.IsOneToOne) {supply supply' : Supply}
    (hsupply : supply.Matches μ supply') (source : String) :
    CompiledAlike μ (compile supply source).result (compile supply' source).result ∧
      (compile supply source).supply.Matches μ (compile supply' source).supply := by
  unfold compile
  cases hscan : scan source with
  | error errors => exact ⟨.error, hsupply⟩
  | ok tokens =>
    have hsame : List.Forall₂ (Token.Matches μ) tokens tokens :=
      List.forall₂_same.2 fun t _ => Token.matches_self hμ t
    obtain ⟨ts, last, htokens, -⟩ := scan_eq_ok hscan
    have hne : tokens ≠ [] := by simp [htokens]
    obtain ⟨hprogram, herrors, hleft⟩ :=
      Parsed.ofTokens_matches hμ.joinsPlaces hsupply hsame hne
    refine ⟨?_, hleft⟩
    show CompiledAlike μ (Parsed.ofTokens supply tokens).compile
      (Parsed.ofTokens supply' tokens).compile
    have hresolved := Program.resolved hone hprogram
    unfold Parsed.compile
    generalize (Parsed.ofTokens supply tokens).program.resolve = r at hresolved ⊢
    generalize (Parsed.ofTokens supply' tokens).program.resolve = r' at hresolved ⊢
    rw [CompileError.eq_of_matches hμ herrors]
    cases hresolved with
    | ok hlocals =>
      dsimp only
      split
      · exact .ok ⟨hprogram, hlocals⟩
      · exact .error
    | error hmatches =>
      rw [CompileError.eq_of_matches hμ hmatches]
      exact .error

end Lox
