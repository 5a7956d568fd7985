import Lox.Proofs.Run.Laws

/-!
# Tasks

Running code splits into tasks: to evaluate an expression, to execute a statement, to
call a function, and so on.  A task is carried out by starting further tasks, one
after another.

**Starting.** `Enters n t m t' m'` says that task `t`, begun on the machine `m` with
budget `n + 1`, begins task `t'` on the machine `m'` with budget `n`.  It has one rule
for each place in `Lox.Evaluate` where one action runs another, under the condition
that the actions before it have answered.

**Moments.** `Reaches` is the transitive closure: it holds of every task that is begun
at any depth while another one is carried out.  The machines that it passes through
are the moments of a run, and what is to hold at every moment of a run is stated with
it.
-/

namespace Lox

/-- A piece of work for the machine. -/
inductive Task where
  /-- Evaluate an expression. -/
  | evaluate (e : Expr)
  /-- Evaluate expressions in order. -/
  | evaluateAll (es : List Expr)
  /-- Call a value. -/
  | invoke (callee : Value) (arguments : List Value) (paren : Span)
  /-- Run the body of a function. -/
  | apply (f : Closure) (arguments : List Value)
  /-- Make an instance of a value. -/
  | instantiate (callee : Value) (arguments : List Value) (paren : Span)
  /-- Add an instance of a class to the store. -/
  | make (c : ClassId)
  /-- Read a property of a value. -/
  | property (object : Value) (name : String) (nameSpan : Span)
  /-- Execute a statement. -/
  | execute (s : Stmt)
  /-- Execute statements in order. -/
  | executeAll (ss : List Stmt)
  /-- Execute a statement as long as a condition holds. -/
  | loop (condition : Expr) (body : Stmt)

namespace Task

/-- What a task answers. -/
@[reducible] def Answer : Task → Type
  | evaluate _ => Value
  | evaluateAll _ => List Value
  | invoke .. => Value
  | apply .. => Value
  | instantiate .. => Value
  | make _ => Value
  | property .. => Value
  | execute _ => Flow
  | executeAll _ => Flow
  | loop .. => Flow

/-- Carries out a task. -/
def run (n : Nat) : (t : Task) → Run t.Answer
  | evaluate e => Run.evaluate n e
  | evaluateAll es => Run.evaluateAll n es
  | invoke callee arguments paren => Run.invoke n callee arguments paren
  | apply f arguments => Run.apply n f arguments
  | instantiate callee arguments paren => Run.instantiate callee arguments paren
  | make c => Run.withStore fun s => ((.instance (s.addInstance c).1), (s.addInstance c).2)
  | property object name nameSpan => Run.property object name nameSpan
  | execute s => Run.execute n s
  | executeAll ss => Run.executeAll n ss
  | loop condition body => Run.loop n condition body

end Task

/-- The value of a call whose body ends in this way. -/
def Flow.answer : Flow → Value
  | .normal => .nil
  | .return value => value

namespace Machine

/-- The machine in a new, empty frame inside the current one. -/
def openBlock (m : Machine) : Machine :=
  { m with
    store := (m.store.addFrame (some m.current)).2
    current := m.store.frames.size }

/-- The machine in a new frame inside the frame of a function, with the parameters
bound. -/
def openBody (m : Machine) (f : Closure) (arguments : List Value) : Machine :=
  { m with
    store := (m.store.addFrame (some f.frame)).2.defineAll m.store.frames.size
      f.decl.params arguments
    current := m.store.frames.size }

/-- The machine with one more call under way. -/
def beginCall (m : Machine) : Machine := { m with callDepth := m.callDepth + 1 }

end Machine

namespace Run

/-! ## Frames and calls -/

theorem execute_ifElse (n : Nat) (condition : Expr) (thenBranch : Stmt)
    (elseBranch : Option Stmt) (span : Span) :
    execute (n + 1) (.ifElse condition thenBranch elseBranch span) =
      (evaluate n condition >>= fun v =>
        if v.isTruthy then execute n thenBranch
        else
          match elseBranch with
          | none => pure .normal
          | some branch => execute n branch) := rfl

theorem execute_block_of_ok {n : Nat} {body : List Stmt} (span : Span) {m m' : Machine}
    {flow : Flow} (h : executeAll n body m.openBlock = .ok flow m') :
    execute (n + 1) (.block body span) m = .ok flow { m' with current := m.current } := by
  rw [execute, bind_of_ok (get_apply m), newFrame, bind_of_ok (withStore_apply _ m)]
  exact inFrame_of_ok h

theorem execute_block_of_error {n : Nat} {body : List Stmt} (span : Span)
    {m m' : Machine} {stop : Stop} (h : executeAll n body m.openBlock = .error stop m') :
    execute (n + 1) (.block body span) m =
      .error stop { m' with current := m.current } := by
  rw [execute, bind_of_ok (get_apply m), newFrame, bind_of_ok (withStore_apply _ m)]
  exact inFrame_of_error h

theorem apply_of_ok {n : Nat} {f : Closure} {arguments : List Value} {m m' : Machine}
    {flow : Flow} (h : executeAll n f.decl.body (m.openBody f arguments) = .ok flow m') :
    apply (n + 1) f arguments m = .ok flow.answer { m' with current := m.current } := by
  rw [apply, newFrame, bind_of_ok (withStore_apply _ m), bind_of_ok (modifyStore_apply _ _),
    bind_of_ok (inFrame_of_ok h)]
  cases flow <;> rfl

theorem apply_of_error {n : Nat} {f : Closure} {arguments : List Value} {m m' : Machine}
    {stop : Stop} (h : executeAll n f.decl.body (m.openBody f arguments) = .error stop m') :
    apply (n + 1) f arguments m = .error stop { m' with current := m.current } := by
  rw [apply, newFrame, bind_of_ok (withStore_apply _ m), bind_of_ok (modifyStore_apply _ _),
    bind_of_error (inFrame_of_error h)]

end Run

/-! ## Starting tasks -/

open Run

/-- With budget `n + 1`, carrying out one task begins another one, which has budget
`n`. -/
inductive Enters (n : Nat) : Task → Machine → Task → Machine → Prop
  | inner {node inner m} :
      Enters n (.evaluate (.grouping node inner)) m (.evaluate inner) m
  | operand {node op operand m} :
      Enters n (.evaluate (.unary node op operand)) m (.evaluate operand) m
  | left {node op left right opSpan m} :
      Enters n (.evaluate (.binary node op left right opSpan)) m (.evaluate left) m
  | right {node op left right opSpan m a m'} :
      evaluate n left m = .ok a m' →
      Enters n (.evaluate (.binary node op left right opSpan)) m (.evaluate right) m'
  | decider {node op left right m} :
      Enters n (.evaluate (.logical node op left right)) m (.evaluate left) m
  | undecided {node op left right m a m'} :
      evaluate n left m = .ok a m' → op.isDecidedBy a = false →
      Enters n (.evaluate (.logical node op left right)) m (.evaluate right) m'
  | assigned {node name value m} :
      Enters n (.evaluate (.assign node name value)) m (.evaluate value) m
  | callee {node callee arguments paren m} :
      Enters n (.evaluate (.call node callee arguments paren)) m (.evaluate callee) m
  | arguments {node callee arguments paren m f m'} :
      evaluate n callee m = .ok f m' →
      Enters n (.evaluate (.call node callee arguments paren)) m (.evaluateAll arguments) m'
  | invoke {node callee arguments paren m f m₁ values m₂} :
      evaluate n callee m = .ok f m₁ → evaluateAll n arguments m₁ = .ok values m₂ →
      Enters n (.evaluate (.call node callee arguments paren)) m (.invoke f values paren) m₂
  | newCallee {node callee arguments paren m} :
      Enters n (.evaluate (.new node callee arguments paren)) m (.evaluate callee) m
  | newArguments {node callee arguments paren m c m'} :
      evaluate n callee m = .ok c m' →
      Enters n (.evaluate (.new node callee arguments paren)) m (.evaluateAll arguments) m'
  | instantiate {node callee arguments paren m c m₁ values m₂} :
      evaluate n callee m = .ok c m₁ → evaluateAll n arguments m₁ = .ok values m₂ →
      Enters n (.evaluate (.new node callee arguments paren)) m
        (.instantiate c values paren) m₂
  | object {node object name nameSpan m} :
      Enters n (.evaluate (.get node object name nameSpan)) m (.evaluate object) m
  | property {node object name nameSpan m o m'} :
      evaluate n object m = .ok o m' →
      Enters n (.evaluate (.get node object name nameSpan)) m (.property o name nameSpan) m'
  | target {node object name nameSpan value m} :
      Enters n (.evaluate (.set node object name nameSpan value)) m (.evaluate object) m
  | written {node object name nameSpan value m i m'} :
      evaluate n object m = .ok (.instance i) m' →
      Enters n (.evaluate (.set node object name nameSpan value)) m (.evaluate value) m'
  | firstValue {e es m} : Enters n (.evaluateAll (e :: es)) m (.evaluate e) m
  | otherValues {e es m v m'} :
      evaluate n e m = .ok v m' →
      Enters n (.evaluateAll (e :: es)) m (.evaluateAll es) m'
  | apply {f arguments paren m} :
      arguments.length = f.decl.arity → m.callDepth < m.maxCallDepth →
      Enters n (.invoke (.function f) arguments paren) m (.apply f arguments) m.beginCall
  | make {c arguments paren m} :
      arguments.length = 0 → m.callDepth < m.maxCallDepth →
      Enters n (.instantiate (.class c) arguments paren) m (.make c) m.beginCall
  | functionBody {f arguments m} :
      Enters n (.apply f arguments) m (.executeAll f.decl.body) (m.openBody f arguments)
  | expression {value span m} :
      Enters n (.execute (.expression value span)) m (.evaluate value) m
  | printed {value span m} :
      Enters n (.execute (.print value span)) m (.evaluate value) m
  | initializer {name value span m} :
      Enters n (.execute (.var name (some value) span)) m (.evaluate value) m
  | blockBody {body span m} :
      Enters n (.execute (.block body span)) m (.executeAll body) m.openBlock
  | condition {condition thenBranch elseBranch span m} :
      Enters n (.execute (.ifElse condition thenBranch elseBranch span)) m
        (.evaluate condition) m
  | thenBranch {condition thenBranch elseBranch span m v m'} :
      evaluate n condition m = .ok v m' → v.isTruthy = true →
      Enters n (.execute (.ifElse condition thenBranch elseBranch span)) m
        (.execute thenBranch) m'
  | elseBranch {condition thenBranch elseBranch span m v m'} :
      evaluate n condition m = .ok v m' → v.isTruthy = false →
      Enters n (.execute (.ifElse condition thenBranch (some elseBranch) span)) m
        (.execute elseBranch) m'
  | loop {condition body span m} :
      Enters n (.execute (.while condition body span)) m (.loop condition body) m
  | returned {value span m} :
      Enters n (.execute (.return (some value) span)) m (.evaluate value) m
  | firstStmt {s ss m} : Enters n (.executeAll (s :: ss)) m (.execute s) m
  | otherStmts {s ss m m'} :
      execute n s m = .ok .normal m' →
      Enters n (.executeAll (s :: ss)) m (.executeAll ss) m'
  | test {condition body m} : Enters n (.loop condition body) m (.evaluate condition) m
  | round {condition body m v m'} :
      evaluate n condition m = .ok v m' → v.isTruthy = true →
      Enters n (.loop condition body) m (.execute body) m'
  | again {condition body m v m₁ m₂} :
      evaluate n condition m = .ok v m₁ → v.isTruthy = true →
      execute n body m₁ = .ok .normal m₂ →
      Enters n (.loop condition body) m (.loop condition body) m₂

/-- Carrying out one task with a budget begins another one, at any depth; the last
three arguments are the budget, the task and the machine with which it begins. -/
inductive Reaches : Nat → Task → Machine → Nat → Task → Machine → Prop
  | refl {n t m} : Reaches n t m n t m
  | step {n t m k t₁ m₁ t₂ m₂} :
      Reaches n t m (k + 1) t₁ m₁ → Enters k t₁ m₁ t₂ m₂ → Reaches n t m k t₂ m₂

namespace Reaches

variable {n k : Nat} {t t' t'' : Task} {m m' m'' : Machine}

/-- A task that is begun first thing in another one begins what it begins in the course
of that one. -/
theorem head (henter : Enters n t m t' m') (h : Reaches n t' m' k t'' m'') :
    Reaches (n + 1) t m k t'' m'' := by
  induction h with
  | refl => exact .step .refl henter
  | step _ hlast ih => exact .step ih hlast

/-- What is begun in the course of a task that is begun in the course of another one is begun
in the course of that one. -/
theorem trans {j : Nat} (h : Reaches n t m k t' m') (h' : Reaches k t' m' j t'' m'') :
    Reaches n t m j t'' m'' := by
  induction h' with
  | refl => exact h
  | step _ hlast ih => exact .step ih hlast

/-- What a task begins in its course is the task itself, or begun in the course of a task
that it begins first thing. -/
theorem cases_head (h : Reaches n t m k t'' m'') :
    (k = n ∧ t'' = t ∧ m'' = m) ∨
      ∃ n' t' m', n = n' + 1 ∧ Enters n' t m t' m' ∧ Reaches n' t' m' k t'' m'' := by
  induction h with
  | refl => exact .inl ⟨rfl, rfl, rfl⟩
  | step _ hlast ih =>
    right
    rcases ih with ⟨rfl, rfl, rfl⟩ | ⟨n', t', m', rfl, henter, hreach⟩
    · exact ⟨_, _, _, rfl, hlast, .refl⟩
    · exact ⟨n', t', m', rfl, henter, .step hreach hlast⟩

end Reaches

end Lox
