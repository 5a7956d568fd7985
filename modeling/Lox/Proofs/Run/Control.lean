import Lox.Proofs.Run.Moment

/-!
# Control state

The control state of a machine is its current frame and its number of calls under way.

**Ends.** Every task puts both back, so that after every program the current frame is
the global one and no call is under way.

**Moments.** The number of calls grows only when a call is let through, below the
limit.  It is therefore within the limit at every moment of a run.
-/

namespace Lox

open Run

/-- The calls under way are within the limit. -/
def Machine.WithinLimit (m : Machine) : Prop := m.callDepth ≤ m.maxCallDepth

theorem Machine.Steady.withinLimit {m m' : Machine} (h : m.Steady m')
    (hm : m.WithinLimit) : m'.WithinLimit := by
  unfold WithinLimit
  rw [h.callDepth, h.maxCallDepth]
  exact hm

/-- The machine with which a task is begun has the same limit as before, and its calls
are within it. -/
theorem Enters.withinLimit {n : Nat} {t t' : Task} {m m' : Machine}
    (h : Enters n t m t' m') (hm : m.WithinLimit) :
    m'.WithinLimit ∧ m'.maxCallDepth = m.maxCallDepth := by
  cases h.entry with
  | after hsteady _ => exact ⟨hsteady.withinLimit hm, hsteady.maxCallDepth⟩
  | call hdepth _ => exact ⟨Nat.succ_le_of_lt hdepth, rfl⟩
  | body => exact ⟨hm, rfl⟩
  | block => exact ⟨hm, rfl⟩

theorem Reaches.withinLimit {n k : Nat} {t t' : Task} {m m' : Machine}
    (h : Reaches n t m k t' m') (hm : m.WithinLimit) :
    m'.WithinLimit ∧ m'.maxCallDepth = m.maxCallDepth := by
  induction h with
  | refl => exact ⟨hm, rfl⟩
  | step _ henter ih =>
    obtain ⟨h₁, hmax₁⟩ := ih
    obtain ⟨h₂, hmax₂⟩ := henter.withinLimit h₁
    exact ⟨h₂, hmax₂.trans hmax₁⟩

theorem Compiled.Begins.withinLimit {budget n : Nat} {c : Compiled} {t : Task}
    {m m' : Machine} (h : c.Begins budget m n t m') (hm : m.WithinLimit) :
    m'.WithinLimit ∧ m'.maxCallDepth = m.maxCallDepth := by
  obtain ⟨before, s, rest, m₁, -, hbefore, hreach⟩ := h
  have hsteady : (m.learn c.locals).Steady m₁ := (keeps_statements budget before).of_ok hbefore
  have hlearn : (m.learn c.locals).WithinLimit := hm
  obtain ⟨h', hmax⟩ := hreach.withinLimit (hsteady.withinLimit hlearn)
  exact ⟨h', hmax.trans hsteady.maxCallDepth⟩

/-- Control rests: no call is under way, and names are bound in the global frame. -/
structure Machine.AtRest (m : Machine) : Prop where
  /-- The current frame is the global one. -/
  current : m.current = m.globals
  /-- No call is under way. -/
  callDepth : m.callDepth = 0

theorem Machine.AtRest.runCompiled {m : Machine} (h : m.AtRest) (budget : Nat)
    (c : Compiled) :
    (Session.runCompiled budget m c).2.AtRest ∧
      (Session.runCompiled budget m c).2.globals = m.globals ∧
      (Session.runCompiled budget m c).2.maxCallDepth = m.maxCallDepth := by
  rw [runCompiled_snd]
  have hsteady := keeps_statements budget c.program.statements (m.learn c.locals)
  exact ⟨⟨hsteady.current.trans (h.current.trans hsteady.globals.symm),
    hsteady.callDepth.trans h.callDepth⟩, hsteady.globals, hsteady.maxCallDepth⟩

theorem Machine.AtRest.runAll {m : Machine} (h : m.AtRest) (budget : Nat)
    (cs : List Compiled) :
    (m.runAll budget cs).AtRest ∧ (m.runAll budget cs).globals = m.globals ∧
      (m.runAll budget cs).maxCallDepth = m.maxCallDepth := by
  induction cs generalizing m with
  | nil => exact ⟨h, rfl, rfl⟩
  | cons c cs ih =>
    obtain ⟨h₁, hglobals, hmax⟩ := h.runCompiled budget c
    obtain ⟨h₂, hglobals', hmax'⟩ := ih h₁
    exact ⟨h₂, hglobals'.trans hglobals, hmax'.trans hmax⟩

/-- **Control is restored on every way out.**  Every task ends with the frame and the
number of calls with which it was begun.  After any programs, whether they ended well
or not, names are bound in the global frame and no call is under way, and while any
further program runs the calls under way are within the limit at every moment. -/
theorem control_restored :
    (∀ (n : Nat) (t : Task) (m : Machine),
      (endState (t.run n) m).current = m.current ∧
        (endState (t.run n) m).callDepth = m.callDepth) ∧
    (∀ (budget limit : Nat) (output : Output) (cs : List Compiled),
      let start := Machine.initial limit output
      let m := start.runAll budget cs
      m.current = start.globals ∧ m.callDepth = 0 ∧
        ∀ (c : Compiled) (n : Nat) (t : Task) (m' : Machine),
          c.Begins budget m n t m' → m'.callDepth ≤ limit) := by
  refine ⟨fun n t m => ?_, fun budget limit output cs => ?_⟩
  · have hsteady := Task.keeps n t m
    exact ⟨hsteady.current, hsteady.callDepth⟩
  · intro start m
    have hstart : start.AtRest := ⟨rfl, rfl⟩
    obtain ⟨hrest, hglobals, hmax⟩ := hstart.runAll budget cs
    refine ⟨hrest.current.trans hglobals, hrest.callDepth, fun c n t m' hbegins => ?_⟩
    have hwithin : m.WithinLimit := by
      rw [Machine.WithinLimit, hrest.callDepth]
      exact Nat.zero_le _
    obtain ⟨hwithin', hmax'⟩ := hbegins.withinLimit hwithin
    rw [Machine.WithinLimit, hmax', hmax] at hwithin'
    exact hwithin'

end Lox
