import Lox.Proofs.Run.Steady
import Lox.Session

/-!
# Moments of programs and sessions

A program executes its statements one after another, and a session runs one program
after another on the same machine.  The tasks that are begun in the course of a
program, or of a session, are the moments at which something can be said about it.
-/

namespace Lox

open Run

/-! ## Programs -/

/-- The machine with the distances of one more program. -/
def Machine.learn (m : Machine) (locals : Locals) : Machine :=
  { m with locals := m.locals.insertMany locals.toList }

/-- While a program runs from the machine `m`, a task is begun with budget `n` on the
machine `m'`. -/
def Compiled.Begins (budget : Nat) (c : Compiled) (m : Machine) (n : Nat) (t : Task)
    (m' : Machine) : Prop :=
  ∃ before s rest m₁,
    c.program.statements = before ++ s :: rest ∧
    statements budget before (m.learn c.locals) = .ok () m₁ ∧
    Reaches budget (.execute s) m₁ n t m'

theorem Compiled.Begins.step {budget n : Nat} {c : Compiled} {t t' : Task}
    {m m' m'' : Machine} (h : c.Begins budget m (n + 1) t m') (henter : Enters n t m' t' m'') :
    c.Begins budget m n t' m'' := by
  obtain ⟨before, s, rest, m₁, hstatements, hbefore, hreach⟩ := h
  exact ⟨before, s, rest, m₁, hstatements, hbefore, .step hreach henter⟩

theorem program_apply (budget : Nat) (p : Program) (locals : Locals) (m : Machine) :
    program budget p locals m = statements budget p.statements (m.learn locals) := rfl

theorem runCompiled_snd (budget : Nat) (m : Machine) (c : Compiled) :
    (Session.runCompiled budget m c).2 =
      endState (statements budget c.program.statements) (m.learn c.locals) := by
  rw [Session.runCompiled, program_apply, endState]
  cases statements budget c.program.statements (m.learn c.locals) with
  | ok u m' => rfl
  | error stop m' => cases stop <;> rfl

theorem keeps_statements (budget : Nat) (ss : List Stmt) : Keeps (statements budget ss) := by
  induction ss with
  | nil => exact keeps_pure _
  | cons s ss ih => exact keeps_bind (Task.keeps budget (.execute s)) fun _ => ih

/-- The machine after some programs, run one after another. -/
def Machine.runAll (budget : Nat) (m : Machine) (cs : List Compiled) : Machine :=
  cs.foldl (fun m c => (Session.runCompiled budget m c).2) m

/-! ## Sessions -/

namespace Session

/-- A text that does not compile only uses up numbers. -/
theorem step_of_error {budget : Nat} {session : Session} {source : String}
    {errors : List CompileError} (h : (compile session.supply source).result = .error errors) :
    session.step budget source =
      (.refused errors, { session with supply := (compile session.supply source).supply }) := by
  simp [step, h]

/-- A text that compiles is run. -/
theorem step_of_ok {budget : Nat} {session : Session} {source : String} {c : Compiled}
    (h : (compile session.supply source).result = .ok c) :
    session.step budget source =
      ((runCompiled budget session.machine c).1,
        ⟨(runCompiled budget session.machine c).2, (compile session.supply source).supply⟩) := by
  simp [step, h]

theorem supply_step (budget : Nat) (session : Session) (source : String) :
    (session.step budget source).2.supply = (compile session.supply source).supply := by
  cases h : (compile session.supply source).result with
  | error errors => rw [step_of_error h]
  | ok c => rw [step_of_ok h]

/-- The session after some more source texts. -/
def afterAll (budget : Nat) (session : Session) (sources : List String) : Session :=
  sources.foldl (fun session source => (session.step budget source).2) session

/-- In the course of the source texts, the machine `m` runs a program. -/
def Runs (budget : Nat) (session : Session) (sources : List String) (c : Compiled)
    (m : Machine) : Prop :=
  ∃ before source rest,
    sources = before ++ source :: rest ∧
    (compile (session.afterAll budget before).supply source).result = .ok c ∧
    m = (session.afterAll budget before).machine

/-- In the course of the source texts, a task is begun with budget `n` on the machine
`m`. -/
def Begins (budget : Nat) (session : Session) (sources : List String) (n : Nat) (t : Task)
    (m : Machine) : Prop :=
  ∃ c m₀, session.Runs budget sources c m₀ ∧ c.Begins budget m₀ n t m

section

variable {budget n : Nat} {session : Session} {sources : List String}

theorem Begins.step {t t' : Task} {m m' : Machine}
    (h : session.Begins budget sources (n + 1) t m) (henter : Enters n t m t' m') :
    session.Begins budget sources n t' m' := by
  obtain ⟨c, m₀, hruns, hbegins⟩ := h
  exact ⟨c, m₀, hruns, hbegins.step henter⟩

/-- What holds of the statements of the programs, and passes on to whatever a task begins,
holds of every task that is begun. -/
theorem Begins.induct {P : Nat → Task → Machine → Prop} {t : Task} {m : Machine}
    (h : session.Begins budget sources n t m)
    (first : ∀ c m₀ s m, session.Runs budget sources c m₀ → (m₀.learn c.locals).Steady m →
      P budget (.execute s) m)
    (enter : ∀ k t m t' m', session.Begins budget sources (k + 1) t m → P (k + 1) t m →
      Enters k t m t' m' → P k t' m') : P n t m := by
  obtain ⟨c, m₀, hruns, before, s, rest, m₁, hstatements, hbefore, hreach⟩ := h
  induction hreach with
  | refl => exact first c m₀ s m₁ hruns ((keeps_statements budget before).of_ok hbefore)
  | step hreach henter ih =>
    exact enter _ _ _ _ _ ⟨c, m₀, hruns, before, s, rest, m₁, hstatements, hbefore, hreach⟩ ih
      henter

end

end Session

end Lox
