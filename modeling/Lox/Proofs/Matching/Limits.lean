import Lox.Proofs.Matching.Numbers
import Lox.Proofs.Matching.Programs

/-!
# Limits only cut a run short

A run with a larger limit on calls, and with a larger budget, goes the same way as one with
a smaller limit for as long as the latter goes on.  Two runs of one program are followed in
step up to the first call that is refused in one of them, or up to the end of the smaller
budget.
-/

namespace Lox

open Run

/-- Two runs of one program, the second one with a larger limit and a larger budget. -/
def Coupling.limits (slack : Nat) : Coupling where
  matching := .same
  slack := slack
  limit := (· ≤ ·)
  output := Eq
  cut stop o o' :=
    (stop = .exhausted ∨ ∃ span, stop = .error ⟨.stackOverflow, span⟩) ∧ o.Grows o'

theorem Coupling.limits_isLawful (slack : Nat) : (Coupling.limits slack).IsLawful where
  injective := by
    rintro i i' j j' rfl rfl
    exact Iff.rfl
  print := by
    rintro o o' line rfl
    exact .inl ⟨rfl, rfl⟩
  exhausted := by
    right
    rintro o o' rfl
    exact ⟨.inl rfl, .refl o⟩
  overflow := by
    intro l l' hl
    right
    refine ⟨hl, ?_⟩
    rintro o o' span rfl
    exact ⟨.inr ⟨span, rfl⟩, .refl o⟩
  grows _ _ _ _ hcut hgrows := ⟨hcut.1, hcut.2.trans hgrows⟩

/-- On fresh machines, a program runs to the same end, or the smaller limit or budget cuts
it short. -/
theorem runCompiled_limits {limit limit' : Nat} (hlimit : limit ≤ limit') (budget slack : Nat)
    (output : Output) (c : Compiled) :
    let run := Session.runCompiled budget (Machine.initial limit output) c
    let run' := Session.runCompiled (slack + budget) (Machine.initial limit' output) c
    run.2.output.Grows run'.2.output ∧
      (run'.1 = run.1 ∧ run'.2.output = run.2.output ∨
        run.1 = .exhausted ∨ ∃ span, run.1 = .failed ⟨.stackOverflow, span⟩) := by
  intro run run'
  have hfresh : (Machine.initial limit output).Coupled (.limits slack)
      (Machine.initial limit' output) := Machine.coupled_initial hlimit rfl
  have hlearnt : ((Machine.initial limit output).learn c.locals).Coupled (.limits slack)
      ((Machine.initial limit' output).learn c.locals) := by
    apply hfresh.learn
    rintro i i' rfl
    rfl
  rcases couples_runCompiled (Coupling.limits_isLawful slack) budget hlearnt
    (Stmt.matchesAll_same _) with ⟨hending, hm⟩ | ⟨stop, hstop, hcause, hgrows⟩
  · have hsame : run.1 = run'.1 := (hending.eq fun _ _ hspan => Eq.symm hspan).symm
    have houtput : run.2.output = run'.2.output := hm.output
    rw [hsame, houtput]
    exact ⟨.refl _, .inl ⟨rfl, rfl⟩⟩
  · refine ⟨hgrows, .inr ?_⟩
    rcases hcause with rfl | ⟨span, rfl⟩
    · exact .inl hstop
    · exact .inr ⟨span, hstop⟩

/-- **The limit on calls only cuts a run short.**  Let a text be run on a fresh machine.  If
the run ends, and not because too many calls are under way, then every run with a larger
limit ends in the same way, with the same error if there is one, and prints the same.  In
any case, what it has printed is a prefix of what the other one prints, no matter whether
that one ends. -/
theorem limit_only_cuts {limit limit' budget budget' : Nat} (hlimit : limit ≤ limit')
    (hbudget : budget ≤ budget') (output : Output) (supply : Supply) (source : String) :
    let run := Session.step budget ⟨Machine.initial limit output, supply⟩ source
    let run' := Session.step budget' ⟨Machine.initial limit' output, supply⟩ source
    (run.1 ≠ .exhausted → (∀ span, run.1 ≠ .failed ⟨.stackOverflow, span⟩) →
      run'.1 = run.1 ∧ run'.2.machine.output = run.2.machine.output) ∧
    run.2.lines.toList <+: run'.2.lines.toList := by
  cases hcompile : (compile supply source).result with
  | error errors =>
    rw [Session.step_of_error hcompile, Session.step_of_error hcompile]
    exact ⟨fun _ _ => ⟨rfl, rfl⟩, List.prefix_rfl⟩
  | ok c =>
    obtain ⟨slack, rfl⟩ := Nat.exists_eq_add_of_le' hbudget
    rw [Session.step_of_ok hcompile, Session.step_of_ok hcompile]
    obtain ⟨hgrows, hends⟩ := runCompiled_limits hlimit budget slack output c
    refine ⟨fun hended hlimited => ?_, hgrows.keeps_lines⟩
    rcases hends with hsame | hexhausted | ⟨span, hoverflow⟩
    · exact hsame
    · exact absurd hexhausted hended
    · exact absurd hoverflow (hlimited span)

/-- A program that calls a function overflows if no call may be under way.  With one call
under way it finishes, and so it does with two. -/
theorem limit_only_cuts_call :
    let run (limit : Nat) : Ending × Session :=
      Session.step 20 ⟨Machine.initial limit .capturing, .initial⟩
        "fun f() \x7b print \"b\"; \x7d print \"a\"; f();"
    0 ≤ 1 ∧ 1 ≤ 2 ∧ 20 ≤ 20 ∧
    (run 0).1.runtimeErrors = [⟨.stackOverflow, ⟨36, 1, 1⟩⟩] ∧
    (run 0).2.lines.toList = ["a"] ∧ (run 0).2.lines.toList <+: (run 1).2.lines.toList ∧
    (run 1).1 = .finished ∧ (run 2).1 = .finished ∧ (run 2).2.lines = (run 1).2.lines := by
  intro run
  have hoverflow : (run 0).1.runtimeErrors = [⟨.stackOverflow, ⟨36, 1, 1⟩⟩] := by
    decide +kernel
  have hprinted : (run 0).2.lines.toList = ["a"] := by decide +kernel
  have of_match (e : Ending) (h : (match e with | .finished => true | _ => false) = true) :
      e = .finished := by
    cases e with
    | finished => rfl
    | _ => cases h
  have hfinished : (run 1).1 = .finished := of_match _ (by decide +kernel)
  obtain ⟨-, hcut⟩ := limit_only_cuts (Nat.zero_le 1) (Nat.le_refl 20) .capturing .initial
    "fun f() \x7b print \"b\"; \x7d print \"a\"; f();"
  obtain ⟨hsame, -⟩ := limit_only_cuts (Nat.le_succ 1) (Nat.le_refl 20) .capturing .initial
    "fun f() \x7b print \"b\"; \x7d print \"a\"; f();"
  rw [hfinished] at hsame
  obtain ⟨hends, houtput⟩ := hsame nofun (fun _ => nofun)
  refine ⟨by decide, by decide, by decide, hoverflow, hprinted, hcut, hfinished, hends, ?_⟩
  rw [Session.lines, Session.lines, houtput]

end Lox
