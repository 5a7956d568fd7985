import Lox.Proofs.Matching.Running
import Lox.Proofs.Scope.Session

/-!
# Matching programs run in step

Matching programs, run as wholes on machines in step, end alike and leave machines in step,
or the first one is cut short.
-/

namespace Lox

open Run

/-- How a program ends that stops. -/
def Stop.ending : Stop → Ending
  | .error e => .failed e
  | .exhausted => .exhausted

/-- The programs end alike. -/
inductive Ending.Matches (μ : Matching) : Ending → Ending → Prop
  | finished : Ending.Matches μ .finished .finished
  | failed {fault span span'} : μ.span span span' →
      Ending.Matches μ (.failed ⟨fault, span⟩) (.failed ⟨fault, span'⟩)
  | exhausted : Ending.Matches μ .exhausted .exhausted

theorem Stop.Matches.ending {μ : Matching} {stop stop' : Stop} (h : stop.Matches μ stop') :
    stop.ending.Matches μ stop'.ending := by
  cases h with
  | error hspan => exact .failed hspan
  | exhausted => exact .exhausted

/-- If equal places correspond, equal endings do. -/
theorem Ending.Matches.eq {μ : Matching} (hspan : ∀ span span', μ.span span span' → span' = span)
    {ending ending' : Ending} (h : ending.Matches μ ending') : ending' = ending := by
  cases h with
  | failed h => rw [hspan _ _ h]
  | finished => rfl
  | exhausted => rfl

theorem runCompiled_of_ok {budget : Nat} {m m₁ : Machine} {p : Compiled}
    (h : statements budget p.program.statements (m.learn p.locals) = .ok () m₁) :
    Session.runCompiled budget m p = (.finished, m₁) := by
  rw [Session.runCompiled, program_apply, h]

theorem runCompiled_of_error {budget : Nat} {m m₁ : Machine} {p : Compiled} {stop : Stop}
    (h : statements budget p.program.statements (m.learn p.locals) = .error stop m₁) :
    Session.runCompiled budget m p = (stop.ending, m₁) := by
  rw [Session.runCompiled, program_apply, h]
  cases stop <;> rfl

variable {c : Coupling} {m m' : Machine}

/-- Machines in step learn distances that agree. -/
theorem Machine.Coupled.learn (hm : m.Coupled c m') {locals locals' : Locals}
    (hlocals : ∀ i i', c.matching.node i i' → locals'[i']? = locals[i]?) :
    (m.learn locals).Coupled c (m'.learn locals') where
  store := hm.store
  globals := hm.globals
  current := hm.current
  locals i i' hi := by
    rw [getElem?_learn, getElem?_learn, hlocals i i' hi, hm.locals i i' hi]
  callDepth := hm.callDepth
  maxCallDepth := hm.maxCallDepth
  output := hm.output

/-- Fresh machines are in step. -/
theorem Machine.coupled_initial {limit limit' : Nat} {output output' : Output}
    (hlimit : c.limit limit limit') (houtput : c.output output output') :
    (Machine.initial limit output).Coupled c (Machine.initial limit' output') where
  store := Store.Matches.empty.addFrame none
  globals := rfl
  current := rfl
  locals _ _ _ := by
    show (∅ : Locals)[_]? = (∅ : Locals)[_]?
    rw [Std.TreeMap.getElem?_emptyc, Std.TreeMap.getElem?_emptyc]
  callDepth := rfl
  maxCallDepth := hlimit
  output := houtput

/-- Programs end alike and leave machines in step if their statements do, or the first one is
cut short. -/
theorem Couples.runCompiled {budget budget' : Nat} {p p' : Compiled}
    (h : Couples c (fun _ _ => True)
      (statements budget p.program.statements (m.learn p.locals))
      (statements budget' p'.program.statements (m'.learn p'.locals))) :
    let run := Session.runCompiled budget m p
    let run' := Session.runCompiled budget' m' p'
    run.1.Matches c.matching run'.1 ∧ run.2.Coupled c run'.2 ∨
      ∃ stop, run.1 = stop.ending ∧ c.cut stop run.2.output run'.2.output := by
  generalize ho : statements budget p.program.statements (m.learn p.locals) = o at h
  generalize ho' : statements budget' p'.program.statements (m'.learn p'.locals) = o' at h
  cases h with
  | ok hm₁ _ =>
    rw [runCompiled_of_ok ho, runCompiled_of_ok ho']
    exact .inl ⟨.finished, hm₁⟩
  | error hm₁ hstop =>
    rw [runCompiled_of_error ho, runCompiled_of_error ho']
    exact .inl ⟨hstop.ending, hm₁⟩
  | cut hcut =>
    rw [runCompiled_of_error ho]
    refine .inr ⟨_, rfl, ?_⟩
    cases o' with
    | ok _ m₁' =>
      rw [runCompiled_of_ok ho']
      exact hcut
    | error stop' m₁' =>
      rw [runCompiled_of_error ho']
      exact hcut

/-- Matching programs end alike and leave machines in step, or the first one is cut short. -/
theorem couples_runCompiled (hc : c.IsLawful) (budget : Nat) {p p' : Compiled}
    (hm : (m.learn p.locals).Coupled c (m'.learn p'.locals))
    (hp : Stmt.MatchesAll c.matching p.program.statements p'.program.statements) :
    let run := Session.runCompiled budget m p
    let run' := Session.runCompiled (c.slack + budget) m' p'
    run.1.Matches c.matching run'.1 ∧ run.2.Coupled c run'.2 ∨
      ∃ stop, run.1 = stop.ending ∧ c.cut stop run.2.output run'.2.output :=
  (couples_statements hc budget hm hp).runCompiled

end Lox
