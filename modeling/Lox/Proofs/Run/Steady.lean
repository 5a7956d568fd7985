import Lox.Proofs.Run.Plan

/-!
# What a task leaves alone

Whether it answers or stops, and whatever it stops with, a task puts back the current
frame and the number of calls under way, changes neither the global frame nor the
distances nor the limit, and only adds to the store.  This holds of every basic action,
and plans keep it.

**Entry.** Hence the machine on which a task begins another one is known up to growth of the
store: it is the same as before, or has one more call under way, or is in a new frame
(`Enters.entry`).
-/

namespace Lox

open Run

theorem Act.keeps (a : Act) : Keeps a.run := by
  cases a with
  | check span answer => exact keeps_check _ _
  | lookUp name node => exact keeps_lookUp _ _
  | assign name node value => exact keeps_assign _ _ _
  | checkCall arity count paren => exact keeps_checkCall _ _ _
  | refuse fault span => exact fun m => .refl m
  | readProperty i name => exact keeps_withStore fun s => .property s i name
  | setField i name value => exact keeps_modifyStore fun s => .setField s i name value
  | addInstance c => exact fun m => .of_store m (.addInstance m.store c)
  | print value span => exact keeps_bind keeps_get fun m => keeps_print _ _
  | define name value => exact keeps_define _ _
  | defineFunction decl => exact keeps_bind keeps_get fun m => keeps_define _ _
  | defineClass name methods => exact keeps_defineClass _ _
  | openBlock => exact keeps_bind keeps_get fun m => keeps_newFrame _
  | openBody f arguments =>
    exact keeps_bind (keeps_newFrame _) fun frame =>
      keeps_bind (keeps_modifyStore fun s => .defineAll s _ _ _) fun _ => keeps_pure _
  | spent t =>
    cases t with
    | instantiate callee arguments paren => exact keeps_instantiate _ _ _
    | make c => exact fun m => .of_store m (.addInstance m.store c)
    | property object name nameSpan => exact keeps_property _ _ _
    | _ => exact keeps_throw _

theorem Setting.keeps {α : Type} {x : Run α} (hx : Keeps x) (s : Setting) :
    Keeps (s.run x) := by
  cases s with
  | here => exact hx
  | inFrame frame => exact keeps_inFrame hx frame
  | inCall => exact keeps_inCall hx

theorem Plan.keeps {α : Type} {n : Nat} (htasks : ∀ t : Task, Keeps (t.run n)) (p : Plan α) :
    Keeps (p.run n) := by
  induction p with
  | answer a => exact keeps_pure a
  | act a next ih => exact keeps_bind a.keeps ih
  | begin s t next ih => exact keeps_bind (s.keeps (htasks t)) ih

/-- However a task ends, all that code must leave alone is as it was. -/
theorem Task.keeps (n : Nat) (t : Task) : Keeps (t.run n) := by
  induction n generalizing t with
  | zero => exact (Act.spent t).keeps
  | succ n ih =>
    rw [run_succ]
    exact t.plan.keeps ih

/-! ## Tasks that are begun -/

/-- The task counts as one more call under way. -/
def Task.isCounted : Task → Bool
  | apply .. => true
  | make _ => true
  | _ => false

/-- How the machine of a task and the machine of a task that it begins belong together. -/
inductive Entry : Task → Machine → Task → Machine → Prop
  /-- Some tasks may have answered before. -/
  | after {t m t' m'} : m.Steady m' → t'.isCounted = false → Entry t m t' m'
  /-- A call is let through. -/
  | call {t m t'} : m.callDepth < m.maxCallDepth → t'.isCounted = true → Entry t m t' m.beginCall
  /-- A function gets a frame for its body. -/
  | body {f arguments m} :
      Entry (.apply f arguments) m (.executeAll f.decl.body) (m.openBody f arguments)
  /-- A block gets a frame. -/
  | block {body span m} : Entry (.execute (.block body span)) m (.executeAll body) m.openBlock

theorem Enters.entry {n : Nat} {t t' : Task} {m m' : Machine} (h : Enters n t m t' m') :
    Entry t m t' m' := by
  have value {e : Expr} {v : Value} {m₁ m₂ : Machine} (hv : evaluate n e m₁ = .ok v m₂) :
      m₁.Steady m₂ := (Task.keeps n (.evaluate e)).of_ok hv
  have values {es : List Expr} {vs : List Value} {m₁ m₂ : Machine}
      (hv : evaluateAll n es m₁ = .ok vs m₂) : m₁.Steady m₂ :=
    (Task.keeps n (.evaluateAll es)).of_ok hv
  have stmt {s : Stmt} {flow : Flow} {m₁ m₂ : Machine} (hs : execute n s m₁ = .ok flow m₂) :
      m₁.Steady m₂ := (Task.keeps n (.execute s)).of_ok hs
  cases h with
  | right h | undecided h _ | arguments h | newArguments h | property h | written h
  | otherValues h | thenBranch h _ | elseBranch h _ | round h _ => exact .after (value h) rfl
  | invoke h₁ h₂ | instantiate h₁ h₂ => exact .after ((value h₁).trans (values h₂)) rfl
  | otherStmts h => exact .after (stmt h) rfl
  | again h _ hbody => exact .after ((value h).trans (stmt hbody)) rfl
  | apply _ hdepth | make _ hdepth => exact .call hdepth rfl
  | functionBody => exact .body
  | blockBody => exact .block
  | _ => exact .after (.refl _) rfl

end Lox
