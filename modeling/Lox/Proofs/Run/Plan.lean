import Lox.Proofs.Run.Task

/-!
# Plans of tasks

A task does some things to the machine by itself and leaves the others to further tasks.
Its plan says which and in what order: a plan answers, or does a basic action and goes on
with its answer, or begins a task and goes on with the answer of that one.

**One unit of budget.** A task with budget `n + 1` does what its plan says, and the tasks
that it begins have budget `n` (`Task.run_succ`).  What holds of every basic action, and is
kept by plans, therefore holds of every task.  A task without budget is one basic action.
-/

namespace Lox

open Run

/-! ## Basic actions -/

/-- What a task does to the machine by itself. -/
inductive Act where
  /-- Answer with what an operator makes of values, or stop. -/
  | check (span : Span) (answer : Except RuntimeFault Value)
  /-- Look up an occurrence of a name. -/
  | lookUp (name : String) (node : Node)
  /-- Assign to an occurrence of a name. -/
  | assign (name : String) (node : Node) (value : Value)
  /-- Let a call through, or stop. -/
  | checkCall (arity count : Nat) (paren : Span)
  /-- Stop with a fault that depends on the objects in the store. -/
  | refuse (fault : Store → RuntimeFault) (span : Span)
  /-- Read a property of an instance. -/
  | readProperty (i : InstanceId) (name : String)
  /-- Set a field of an instance. -/
  | setField (i : InstanceId) (name : String) (value : Value)
  /-- Add an instance of a class. -/
  | addInstance (c : ClassId)
  /-- Print the text of a value. -/
  | print (value : Value) (span : Span)
  /-- Bind a name in the current frame. -/
  | define (name : String) (value : Value)
  /-- Make a function in the current frame. -/
  | defineFunction (decl : FunctionDecl)
  /-- Make a class in the current frame. -/
  | defineClass (name : String) (methods : List FunctionDecl)
  /-- Add a frame inside the current one. -/
  | openBlock
  /-- Add a frame inside that of a function and bind its parameters. -/
  | openBody (f : Closure) (arguments : List Value)
  /-- Do what is left to a task without budget. -/
  | spent (t : Task)

namespace Act

/-- What a basic action answers. -/
@[reducible] def Answer : Act → Type
  | check .. => Value
  | lookUp .. => Value
  | assign .. => Unit
  | checkCall .. => Unit
  | refuse .. => Value
  | readProperty .. => Option Value
  | setField .. => Unit
  | addInstance _ => Value
  | print .. => Unit
  | define .. => Unit
  | defineFunction _ => Unit
  | defineClass .. => Unit
  | openBlock => FrameId
  | openBody .. => FrameId
  | spent t => t.Answer

/-- Does a basic action. -/
def run : (a : Act) → Run a.Answer
  | check span answer => Run.check span answer
  | lookUp name node => Run.lookUp name node
  | assign name node value => Run.assign name node value
  | checkCall arity count paren => Run.checkCall arity count paren
  | refuse fault span => fun m => fail (fault m.store) span m
  | readProperty i name => withStore fun s => s.property i name
  | setField i name value => modifyStore fun s => s.setField i name value
  | addInstance c => withStore fun s => ((.instance (s.addInstance c).1), (s.addInstance c).2)
  | print value span => do Run.print ((← get).store.display value) span
  | define name value => Run.define name value
  | defineFunction decl => do
    Run.define decl.name (.function ⟨decl, (← get).current⟩)
  | defineClass name methods => Run.defineClass name methods
  | openBlock => do newFrame (← get).current
  | openBody f arguments => do
    let frame ← newFrame f.frame
    modifyStore fun s => s.defineAll frame f.decl.params arguments
    return frame
  | spent t => t.run 0

end Act

/-! ## Plans -/

/-- Where a task that another one begins is carried out. -/
inductive Setting where
  /-- In the current frame. -/
  | here
  /-- In another frame. -/
  | inFrame (frame : FrameId)
  /-- As one more call under way. -/
  | inCall

namespace Setting

/-- Carries out an action in a setting. -/
def run {α : Type} : Setting → Run α → Run α
  | here, x => x
  | inFrame frame, x => Run.inFrame frame x
  | inCall, x => Run.inCall x

/-- The machine on which the action is begun. -/
def enter : Setting → Machine → Machine
  | here, m => m
  | inFrame frame, m => { m with current := frame }
  | inCall, m => m.beginCall

/-- What becomes of the machine at the end of the action, if it was begun from the machine
`before`. -/
def leave (before : Machine) : Setting → Machine → Machine
  | here, m => m
  | inFrame _, m => { m with current := before.current }
  | inCall, m => { m with callDepth := m.callDepth - 1 }

variable {α : Type} {x : Run α} {m m' : Machine}

theorem run_of_ok {a : α} (s : Setting) (h : x (s.enter m) = .ok a m') :
    s.run x m = .ok a (s.leave m m') := by
  cases s with
  | here => exact h
  | inFrame frame => exact inFrame_of_ok h
  | inCall => exact inCall_of_ok h

theorem run_of_error {stop : Stop} (s : Setting) (h : x (s.enter m) = .error stop m') :
    s.run x m = .error stop (s.leave m m') := by
  cases s with
  | here => exact h
  | inFrame frame => exact inFrame_of_error h
  | inCall => exact inCall_of_error h

theorem run_eq_ok {a : α} {s : Setting} :
    s.run x m = .ok a m' ↔ ∃ m₁, x (s.enter m) = .ok a m₁ ∧ m' = s.leave m m₁ := by
  constructor
  · intro h
    cases hx : x (s.enter m) with
    | ok b m₁ =>
      rw [s.run_of_ok hx] at h
      cases h
      exact ⟨m₁, rfl, rfl⟩
    | error stop m₁ =>
      rw [s.run_of_error hx] at h
      cases h
  · rintro ⟨m₁, hx, rfl⟩
    exact s.run_of_ok hx

theorem run_eq_error {stop : Stop} {s : Setting} :
    s.run x m = .error stop m' ↔ ∃ m₁, x (s.enter m) = .error stop m₁ ∧ m' = s.leave m m₁ := by
  constructor
  · intro h
    cases hx : x (s.enter m) with
    | ok b m₁ =>
      rw [s.run_of_ok hx] at h
      cases h
    | error stop m₁ =>
      rw [s.run_of_error hx] at h
      cases h
      exact ⟨m₁, rfl, rfl⟩
  · rintro ⟨m₁, hx, rfl⟩
    exact s.run_of_error hx

@[simp] theorem enter_store (s : Setting) (m : Machine) : (s.enter m).store = m.store := by
  cases s <;> rfl

@[simp] theorem leave_store (s : Setting) (before m : Machine) :
    (s.leave before m).store = m.store := by
  cases s <;> rfl

@[simp] theorem enter_output (s : Setting) (m : Machine) : (s.enter m).output = m.output := by
  cases s <;> rfl

@[simp] theorem leave_output (s : Setting) (before m : Machine) :
    (s.leave before m).output = m.output := by
  cases s <;> rfl

end Setting

/-- What a task does and begins, in order, up to its answer. -/
inductive Plan (α : Type) where
  /-- Answers. -/
  | answer (a : α)
  /-- Does a basic action and goes on. -/
  | act (a : Act) (next : a.Answer → Plan α)
  /-- Begins a task and goes on. -/
  | begin (s : Setting) (t : Task) (next : t.Answer → Plan α)

/-- Carries out a plan; the tasks that it begins have budget `n`. -/
def Plan.run {α : Type} (n : Nat) : Plan α → Run α
  | answer a => pure a
  | act a next => do
    let b ← a.run
    (next b).run n
  | begin s t next => do
    let b ← s.run (t.run n)
    (next b).run n

namespace Plan

variable {α : Type} {n : Nat} {m m' : Machine} {r : α}

@[simp] theorem run_answer_eq_ok {a : α} :
    (answer a).run n m = .ok r m' ↔ a = r ∧ m = m' := by
  simp [run]

@[simp] theorem run_act_eq_ok {a : Act} {next : a.Answer → Plan α} :
    (act a next).run n m = .ok r m' ↔
      ∃ b m₁, a.run m = .ok b m₁ ∧ (next b).run n m₁ = .ok r m' := bind_eq_ok

@[simp] theorem run_begin_eq_ok {s : Setting} {t : Task} {next : t.Answer → Plan α} :
    (begin s t next).run n m = .ok r m' ↔
      ∃ b m₁, t.run n (s.enter m) = .ok b m₁ ∧ (next b).run n (s.leave m m₁) = .ok r m' := by
  rw [run, bind_eq_ok]
  constructor
  · rintro ⟨b, m₁, hb, h⟩
    obtain ⟨m₂, ht, rfl⟩ := Setting.run_eq_ok.1 hb
    exact ⟨b, m₂, ht, h⟩
  · rintro ⟨b, m₁, hb, h⟩
    exact ⟨b, s.leave m m₁, Setting.run_eq_ok.2 ⟨m₁, hb, rfl⟩, h⟩

end Plan

namespace Task

/-- What a task with budget does. -/
def plan : (t : Task) → Plan t.Answer
  | evaluate (.literal _ value) => .answer (.ofConstant value)
  | evaluate (.grouping _ inner) => .begin .here (.evaluate inner) .answer
  | evaluate (.unary node op operand) => .begin .here (.evaluate operand) fun a =>
    .act (.check node.span (op.apply a)) .answer
  | evaluate (.binary _ op left right opSpan) => .begin .here (.evaluate left) fun a =>
    .begin .here (.evaluate right) fun b => .act (.check opSpan (op.apply a b)) .answer
  | evaluate (.logical _ op left right) => .begin .here (.evaluate left) fun a =>
    if op.isDecidedBy a then .answer a else .begin .here (.evaluate right) .answer
  | evaluate (.variable node name) => .act (.lookUp name node) .answer
  | evaluate (.assign node name value) => .begin .here (.evaluate value) fun v =>
    .act (.assign name node v) fun _ => .answer v
  | evaluate (.call _ callee arguments paren) => .begin .here (.evaluate callee) fun f =>
    .begin .here (.evaluateAll arguments) fun values =>
      .begin .here (.invoke f values paren) .answer
  | evaluate (.new _ callee arguments paren) => .begin .here (.evaluate callee) fun c =>
    .begin .here (.evaluateAll arguments) fun values =>
      .begin .here (.instantiate c values paren) .answer
  | evaluate (.get _ object name nameSpan) => .begin .here (.evaluate object) fun o =>
    .begin .here (.property o name nameSpan) .answer
  | evaluate (.set _ object name nameSpan value) => .begin .here (.evaluate object) fun o =>
    match o with
    | .instance i => .begin .here (.evaluate value) fun v =>
      .act (.setField i name v) fun _ => .answer v
    | other => .act (.refuse (fun _ => .fieldsOfOther other.typeName) nameSpan) .answer
  | evaluate (.this node) => .act (.lookUp "this" node) .answer
  | evaluateAll [] => .answer []
  | evaluateAll (e :: es) => .begin .here (.evaluate e) fun v =>
    .begin .here (.evaluateAll es) fun vs => .answer (v :: vs)
  | invoke (.function f) arguments paren =>
    .act (.checkCall f.decl.arity arguments.length paren) fun _ =>
      .begin .inCall (.apply f arguments) .answer
  | invoke (.class c) _ paren => .act (.refuse (fun s => .calledClass (s.className c)) paren) .answer
  | invoke other _ paren => .act (.refuse (fun s => .notCallable (s.display other)) paren) .answer
  | apply f arguments => .act (.openBody f arguments) fun frame =>
    .begin (.inFrame frame) (.executeAll f.decl.body) fun flow => .answer flow.answer
  | instantiate (.class c) arguments paren =>
    .act (.checkCall 0 arguments.length paren) fun _ => .begin .inCall (.make c) .answer
  | instantiate other _ paren => .act (.refuse (fun s => .notClass (s.display other)) paren) .answer
  | make c => .act (.addInstance c) .answer
  | property (.instance i) name nameSpan => .act (.readProperty i name) fun found =>
    match found with
    | some value => .answer value
    | none => .act (.refuse (fun _ => .undefinedProperty name) nameSpan) .answer
  | property other _ nameSpan =>
    .act (.refuse (fun _ => .propertiesOfOther other.typeName) nameSpan) .answer
  | execute (.expression value _) => .begin .here (.evaluate value) fun _ => .answer .normal
  | execute (.print value span) => .begin .here (.evaluate value) fun v =>
    .act (.print v span) fun _ => .answer .normal
  | execute (.var name none _) => .act (.define name .nil) fun _ => .answer .normal
  | execute (.var name (some initializer) _) => .begin .here (.evaluate initializer) fun v =>
    .act (.define name v) fun _ => .answer .normal
  | execute (.block body _) => .act .openBlock fun frame =>
    .begin (.inFrame frame) (.executeAll body) .answer
  | execute (.ifElse condition thenBranch elseBranch _) =>
    .begin .here (.evaluate condition) fun v =>
      if v.isTruthy then .begin .here (.execute thenBranch) .answer
      else
        match elseBranch with
        | none => .answer .normal
        | some branch => .begin .here (.execute branch) .answer
  | execute (.while condition body _) => .begin .here (.loop condition body) .answer
  | execute (.function decl _) => .act (.defineFunction decl) fun _ => .answer .normal
  | execute (.class name methods _) => .act (.defineClass name methods) fun _ => .answer .normal
  | execute (.return none _) => .answer (.return .nil)
  | execute (.return (some value) _) => .begin .here (.evaluate value) fun v =>
    .answer (.return v)
  | executeAll [] => .answer .normal
  | executeAll (s :: ss) => .begin .here (.execute s) fun flow =>
    match flow with
    | .normal => .begin .here (.executeAll ss) .answer
    | .return value => .answer (.return value)
  | loop condition body => .begin .here (.evaluate condition) fun v =>
    if v.isTruthy then .begin .here (.execute body) fun flow =>
      match flow with
      | .normal => .begin .here (.loop condition body) .answer
      | .return value => .answer (.return value)
    else .answer .normal

/-- A task with budget does what its plan says. -/
theorem run_succ (t : Task) (n : Nat) : t.run (n + 1) = t.plan.run n := by
  cases t with
  | evaluate e =>
    cases e with
    | logical node op left right =>
      simp only [run, Run.evaluate, plan, Plan.run, Setting.run]
      congr 1
      funext a
      split <;> simp [Plan.run, Setting.run, run]
    | set node object name nameSpan value =>
      simp only [run, Run.evaluate, plan, Plan.run, Setting.run]
      congr 1
      funext o
      cases o with
      | «instance» i => simp [Plan.run, Setting.run, Act.run, run]
      | _ => rfl
    | _ => simp [run, Run.evaluate, plan, Plan.run, Setting.run, Act.run]
  | evaluateAll es => cases es <;> simp [run, Run.evaluateAll, plan, Plan.run, Setting.run]
  | invoke callee arguments paren =>
    cases callee with
    | function f => simp [run, Run.invoke, plan, Plan.run, Setting.run, Act.run]
    | _ => rfl
  | apply f arguments =>
    simp only [run, Run.apply, plan, Plan.run, Setting.run, Act.run, bind_assoc, pure_bind]
    congr 1
    funext frame
    congr 1
    funext _
    congr 1
    funext flow
    cases flow <;> rfl
  | instantiate callee arguments paren =>
    cases callee with
    | «class» c =>
      simp only [run, Run.instantiate, plan, Plan.run, Setting.run, Act.run, bind_pure]
      rfl
    | _ => rfl
  | make c => simp [run, plan, Plan.run, Act.run]
  | property object name nameSpan =>
    cases object with
    | «instance» i =>
      simp only [run, Run.property, plan, Plan.run, Act.run]
      congr 1
      funext found
      cases found with
      | some value => rfl
      | none => rfl
    | _ => rfl
  | execute s =>
    cases s with
    | ifElse condition thenBranch elseBranch span =>
      simp only [run, execute_ifElse, plan, Plan.run, Setting.run]
      congr 1
      funext v
      split
      · simp [Plan.run, Setting.run, run]
      · cases elseBranch <;> simp [Plan.run, Setting.run, run]
    | var name initializer span =>
      cases initializer <;> simp [run, Run.execute, plan, Plan.run, Setting.run, Act.run]
    | «return» value span =>
      cases value <;> simp [run, Run.execute, plan, Plan.run, Setting.run]
    | _ => simp [run, Run.execute, plan, Plan.run, Setting.run, Act.run]
  | executeAll ss =>
    cases ss with
    | nil => rfl
    | cons s ss =>
      simp only [run, Run.executeAll, plan, Plan.run, Setting.run]
      congr 1
      funext flow
      cases flow <;> simp [Plan.run, Setting.run, run]
  | loop condition body =>
    simp only [run, Run.loop, plan, Plan.run, Setting.run]
    congr 1
    funext v
    split
    · simp only [Plan.run, Setting.run, run]
      congr 1
      funext flow
      cases flow <;> simp [Plan.run, Setting.run, run]
    · rfl

end Task

end Lox
