import Lox.Proofs.Run.Plan

/-!
# Printing

All that running code does to the output is to print lines to it.  This holds of every
task, however it ends (`Task.onward`), and so the lines of a capturing output at any moment
are a prefix of those at the end.

**Actions.** `Onward` is a class, so that it is found for an action that is composed of
actions of which it holds.
-/

namespace Lox

/-- The later output is what the earlier one becomes by printing lines. -/
inductive Output.Grows : Output → Output → Prop
  | refl (o : Output) : Grows o o
  | print {o o' : Output} (line : String) : Grows o o' → Grows o (o'.print line).2

namespace Output.Grows

theorem trans {o o' o'' : Output} (h : o.Grows o') (h' : o'.Grows o'') : o.Grows o'' := by
  induction h' with
  | refl => exact h
  | print line _ ih => exact .print line ih

/-- Lines that were kept stay. -/
theorem keeps_lines {o o' : Output} (h : o.Grows o') : o.lines.toList <+: o'.lines.toList := by
  induction h with
  | refl => exact List.prefix_rfl
  | @print o' line _ ih =>
    cases o' with
    | captured lines =>
      apply ih.trans
      simp [Output.print, Output.lines]
    | sink room taken =>
      apply ih.trans
      simp only [Output.print]
      split <;> exact List.prefix_rfl

end Output.Grows

namespace Run

variable {α β : Type}

/-- However the action ends, it has only printed. -/
class Onward (x : Run α) : Prop where
  /-- The output grows. -/
  grows : ∀ m : Machine, m.output.Grows (endState x m).output

/-- An action that leaves the output alone. -/
theorem Onward.of_eq {x : Run α} (h : ∀ m : Machine, (endState x m).output = m.output) :
    Onward x := ⟨fun m => h m ▸ .refl _⟩

instance (a : α) : Onward (pure a : Run α) := .of_eq fun _ => rfl

instance : Onward (get : Run Machine) := .of_eq fun _ => rfl

instance (stop : Stop) : Onward (throw stop : Run α) := .of_eq fun _ => rfl

instance (fault : RuntimeFault) (span : Span) : Onward (fail fault span : Run α) :=
  .of_eq fun _ => rfl

instance (span : Span) (r : Except RuntimeFault α) : Onward (check span r) := by
  cases r <;> exact .of_eq fun _ => rfl

instance (f : Store → Store) : Onward (modifyStore f) := .of_eq fun _ => rfl

instance (f : Store → α × Store) : Onward (withStore f) := .of_eq fun _ => rfl

instance (enclosing : FrameId) : Onward (newFrame enclosing) := .of_eq fun _ => rfl

instance (name : String) (value : Value) : Onward (define name value) := .of_eq fun _ => rfl

theorem Onward.bind {x : Run α} {f : α → Run β} (hx : Onward x) (hf : ∀ a, Onward (f a)) :
    Onward (x >>= f) where
  grows m := by
    have hgrows := hx.grows m
    cases h : x m with
    | ok a m₁ =>
      rw [endState_of_ok h] at hgrows
      rw [endState_bind_of_ok h]
      exact hgrows.trans ((hf a).grows m₁)
    | error stop m₁ =>
      rw [endState_of_error h] at hgrows
      rwa [endState_bind_of_error h]

instance (x : Run α) (f : α → Run β) [Onward x] [∀ a, Onward (f a)] : Onward (x >>= f) :=
  .bind inferInstance fun _ => inferInstance

instance (p : Prop) [Decidable p] (x y : Run α) [Onward x] [Onward y] :
    Onward (if p then x else y) := by
  split <;> assumption

instance (x : Run α) (frame : FrameId) [Onward x] : Onward (inFrame frame x) where
  grows m := by
    have hx := Onward.grows (x := x) { m with current := frame }
    cases h : x { m with current := frame } with
    | ok a m₁ =>
      rw [endState_of_ok h] at hx
      rwa [endState_of_ok (inFrame_of_ok h)]
    | error stop m₁ =>
      rw [endState_of_error h] at hx
      rwa [endState_of_error (inFrame_of_error h)]

instance (x : Run α) [Onward x] : Onward (inCall x) where
  grows m := by
    have hx := Onward.grows (x := x) { m with callDepth := m.callDepth + 1 }
    cases h : x { m with callDepth := m.callDepth + 1 } with
    | ok a m₁ =>
      rw [endState_of_ok h] at hx
      rwa [endState_of_ok (inCall_of_ok h)]
    | error stop m₁ =>
      rw [endState_of_error h] at hx
      rwa [endState_of_error (inCall_of_error h)]

instance (line : String) (span : Span) : Onward (print line span) where
  grows m := by
    have hprint : (endState (print line span) m).output = (m.output.print line).2 := by
      rw [endState, print_apply]
      dsimp only
      split
      · next h =>
        split at h <;> cases h
        rfl
      · next h =>
        split at h <;> cases h
        rfl
    rw [hprint]
    exact .print line (.refl _)

instance (name : String) (node : Node) : Onward (lookUp name node) := .of_eq fun m => by
  rw [endState, lookUp_apply]
  cases found? m name node <;> rfl

instance (name : String) (node : Node) (value : Value) : Onward (assign name node value) :=
  .of_eq fun m => by
    cases h : (assigned m name node value).1 <;> simp [endState, assign_apply, h]

instance (arity count : Nat) (paren : Span) : Onward (checkCall arity count paren) :=
  .of_eq fun m => by
    by_cases hcount : count = arity
    · by_cases hdepth : m.maxCallDepth ≤ m.callDepth <;>
        simp [endState, checkCall_apply, hcount, hdepth]
    · simp [endState, checkCall_apply, hcount]

instance (name : String) (methods : List FunctionDecl) : Onward (defineClass name methods) :=
  .of_eq fun m => by rw [endState, defineClass_apply]

instance (object : Value) (name : String) (nameSpan : Span) :
    Onward (property object name nameSpan) := by
  unfold property
  cases object with
  | «instance» i =>
    have hfound (found : Option Value) : Onward (match found with
        | some value => return value
        | none => fail (.undefinedProperty name) nameSpan : Run Value) := by
      cases found <;> infer_instance
    infer_instance
  | _ => infer_instance

instance (callee : Value) (arguments : List Value) (paren : Span) :
    Onward (instantiate callee arguments paren) := by
  unfold instantiate
  cases callee <;> infer_instance

end Run

open Run

variable {α : Type}

/-! ## Tasks -/

/-- Every basic action only prints, however it ends. -/
instance Act.onward (a : Act) : Onward a.run := by
  cases a with
  | refuse fault span => exact .of_eq fun _ => rfl
  | spent t =>
    cases t with
    | instantiate callee arguments paren =>
      exact inferInstanceAs (Onward (Run.instantiate callee arguments paren))
    | make c => exact .of_eq fun _ => rfl
    | property object name nameSpan =>
      exact inferInstanceAs (Onward (Run.property object name nameSpan))
    | _ => exact inferInstanceAs (Onward (throw Stop.exhausted))
  | _ =>
    unfold Act.run
    infer_instance

instance (s : Setting) (x : Run α) [Onward x] : Onward (s.run x) := by
  cases s <;> unfold Setting.run <;> infer_instance

/-- So does a plan, if the tasks that it begins do. -/
theorem Plan.onward {n : Nat} (htasks : ∀ t : Task, Onward (t.run n)) (p : Plan α) :
    Onward (p.run n) := by
  induction p with
  | answer a => exact inferInstanceAs (Onward (pure a))
  | act a next ih => exact .bind a.onward ih
  | begin s t next ih => exact .bind inferInstance ih

/-- Every task only prints, however it ends. -/
theorem Task.onward (n : Nat) (t : Task) : Onward (t.run n) := by
  induction n generalizing t with
  | zero => exact (Act.spent t).onward
  | succ n ih =>
    rw [run_succ]
    exact t.plan.onward ih

instance (n : Nat) (e : Expr) : Onward (Run.evaluate n e) := Task.onward n (.evaluate e)

instance (n : Nat) (es : List Expr) : Onward (Run.evaluateAll n es) :=
  Task.onward n (.evaluateAll es)

instance (n : Nat) (f : Value) (arguments : List Value) (paren : Span) :
    Onward (Run.invoke n f arguments paren) := Task.onward n (.invoke f arguments paren)

instance (n : Nat) (f : Closure) (arguments : List Value) :
    Onward (Run.apply n f arguments) := Task.onward n (.apply f arguments)

instance (n : Nat) (s : Stmt) : Onward (Run.execute n s) := Task.onward n (.execute s)

instance (n : Nat) (ss : List Stmt) : Onward (Run.executeAll n ss) :=
  Task.onward n (.executeAll ss)

instance (n : Nat) (condition : Expr) (body : Stmt) : Onward (Run.loop n condition body) :=
  Task.onward n (.loop condition body)

/-- So do the statements of a program. -/
instance Run.onward_statements (budget : Nat) (ss : List Stmt) :
    Onward (Run.statements budget ss) := by
  induction ss with
  | nil => exact inferInstanceAs (Onward (pure ()))
  | cons s ss ih =>
    rw [Run.statements]
    infer_instance

end Lox
