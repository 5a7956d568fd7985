import Lox.Proofs.Run.Course

/-!
# Where undefined variables are reported

An undefined variable is reported at one place only: at an expression that looks up a
name, or assigns to one, and does not find it.  Every such error of a program has its origin
in a task of this kind that is begun in its course (`misses_of_runCompiled`).
-/

namespace Lox

open Run

/-- The expression does not find the name that it stands for; the error says so. -/
inductive Misses (n : Nat) : Expr → Machine → RuntimeError → Prop
  | variable {node name m error m'} :
      lookUp name node m = .error (.error error) m' → Misses n (.variable node name) m error
  | this {node m error m'} :
      lookUp "this" node m = .error (.error error) m' → Misses n (.this node) m error
  | assign {node name value m v m₁ error m₂} :
      evaluate n value m = .ok v m₁ → Run.assign name node v m₁ = .error (.error error) m₂ →
      Misses n (.assign node name value) m error

/-- The error reports an undefined variable. -/
def RuntimeFault.isUndefinedVariable : RuntimeFault → Bool
  | .undefinedVariable _ => true
  | _ => false

theorem onNumbers_isUndefinedVariable {α β : Type} {op : Float → Float → α} {g : α → β}
    {a b : Value} {fault : RuntimeFault} (h : (onNumbers op a b).map g = .error fault) :
    fault.isUndefinedVariable = false := by
  unfold onNumbers at h
  split at h <;> cases h
  rfl

theorem UnaryOp.isUndefinedVariable_apply {op : UnaryOp} {a : Value} {fault : RuntimeFault}
    (h : op.apply a = .error fault) : fault.isUndefinedVariable = false := by
  unfold UnaryOp.apply at h
  split at h <;> cases h
  rfl

theorem BinaryOp.isUndefinedVariable_apply {op : BinaryOp} {a b : Value}
    {fault : RuntimeFault} (h : op.apply a b = .error fault) :
    fault.isUndefinedVariable = false := by
  cases op with
  | add =>
    rw [BinaryOp.apply] at h
    unfold addValues at h
    split at h <;> cases h
    rfl
  | divide =>
    rw [BinaryOp.apply] at h
    unfold divideValues at h
    split at h
    · split at h <;> cases h
      rfl
    · cases h
      rfl
  | equal | notEqual => cases h
  | subtract | multiply | less | lessEqual | greater | greaterEqual =>
    exact onNumbers_isUndefinedVariable h

/-- A task without budget looks up no name. -/
theorem Task.isUndefinedVariable_spent {t : Task} {m m' : Machine} {error : RuntimeError}
    (h : t.run 0 m = .error (.error error) m') : error.fault.isUndefinedVariable = false := by
  cases t with
  | instantiate callee arguments paren =>
    cases callee with
    | «class» c =>
      rw [run, instantiate_class_apply] at h
      split at h
      · cases h
        rfl
      · split at h <;> cases h
        rfl
    | _ =>
      cases h
      rfl
  | property object name nameSpan =>
    cases object with
    | «instance» i =>
      rw [run, property_instance_apply] at h
      dsimp only at h
      split at h <;> cases h
      rfl
    | _ =>
      cases h
      rfl
  | _ => cases h

/-- A basic action that reports an undefined variable is done by an expression that misses a
name. -/
theorem Performs.misses {n : Nat} {t : Task} {m m' m'' : Machine} {a : Act}
    {error : RuntimeError} (h : Performs n t m a m') (hstop : a.run m' = .error (.error error) m'')
    (hfault : error.fault.isUndefinedVariable = true) :
    ∃ e, t = .evaluate e ∧ Misses n e m error := by
  have hstops := Act.stops_of_error hstop
  cases h with
  | «variable» => exact ⟨_, rfl, .variable hstop⟩
  | this => exact ⟨_, rfl, .this hstop⟩
  | assign hvalue => exact ⟨_, rfl, .assign hvalue hstop⟩
  | @unary node op operand _ v _ hv =>
    generalize hanswer : op.apply v = answer at hstops
    cases hstops
    rw [op.isUndefinedVariable_apply hanswer] at hfault
    cases hfault
  | @binary node op left right opSpan _ v _ w _ hv hw =>
    generalize hanswer : op.apply v w = answer at hstops
    cases hstops
    rw [op.isUndefinedVariable_apply hanswer] at hfault
    cases hfault
  | _ => cases hstops <;> cases hfault

/-- An undefined variable is reported by an expression that is evaluated in the course
of the program and misses a name. -/
theorem misses_of_runCompiled {budget : Nat} {m : Machine} {c : Compiled}
    {error : RuntimeError} (h : (Session.runCompiled budget m c).1 = .failed error)
    (hfault : error.fault.isUndefinedVariable = true) :
    ∃ n e m', c.Begins budget m (n + 1) (.evaluate e) m' ∧ Misses n e m' error := by
  rw [Session.runCompiled] at h
  split at h
  · cases h
  · next hrun =>
    cases h
    obtain ⟨a, m₁, m₂, ha, hstop⟩ := Compiled.origin_of_error hrun
    rcases Compiled.acts_mem_course.1 ha with ⟨k, t, m₀, hbegins, hperforms⟩ | ⟨t, -, rfl⟩
    · obtain ⟨e, rfl, hmisses⟩ := hperforms.misses hstop hfault
      exact ⟨k, e, m₀, hbegins, hmisses⟩
    · rw [Task.isUndefinedVariable_spent hstop] at hfault
      cases hfault
  · cases h

end Lox
