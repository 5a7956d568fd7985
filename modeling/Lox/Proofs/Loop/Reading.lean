import Lox.Proofs.Run.Course
import Lox.Proofs.Syntax.Orderly

/-!
# For statements, read directly

The tree of a `for` statement has a block for each round, which holds the body and the
increment, and a block for the initializer around the loop.  Read directly, there are no
rounds in the tree: the body and the increment are run where the condition is, in the one
scope of the loop.

**Direct reading.** `Task.direct` carries out tasks as `Task.run` does, but runs the
statements of a round in the frame in which the round stands.  For a `for` statement this is
what `ForLoop.direct` says: the initializer is run once, then condition, body and increment
in turn, until the condition is false or the body returns (`ForLoop.direct_tree`).

**Numbers of frames.** Where the tree makes a frame for a round, the direct reading passes
over a number (`skipFrame`), so that all other frames have the same numbers in both.  The
frame with that number is empty, and no frame and no function is ever inside of it.  In the
same way, what the tree takes from the budget is taken from it in the direct reading.
-/

namespace Lox

open Run

/-! ## Rounds -/

/-- The statements are the body and the increment of a `for` statement.  An increment is not
followed by a semicolon, as any other expression statement is. -/
def Stmt.isRound : List Stmt → Bool
  | [body, .expression value span] => !body.isDeclaration && span = value.span
  | _ => false

/-- No statement of a round declares a name. -/
theorem Stmt.isDeclaration_of_isRound {ss : List Stmt} (h : Stmt.isRound ss) :
    ∀ s ∈ ss, s.isDeclaration = false := by
  unfold Stmt.isRound at h
  split at h
  · next body value span =>
    simp only [Bool.and_eq_true, Bool.not_eq_true'] at h
    intro s hs
    simp only [List.mem_cons, List.not_mem_nil, or_false] at hs
    rcases hs with rfl | rfl
    · exact h.1
    · rfl
  · cases h

/-! ## Plans of one reading or another -/

namespace Plan

variable {α : Type}

/-- Carries out a plan, if `runner` carries out the tasks that it begins. -/
def runWith (runner : (t : Task) → Run t.Answer) : Plan α → Run α
  | answer a => pure a
  | act a next => do
    let b ← a.run
    (next b).runWith runner
  | begin s t next => do
    let b ← s.run (runner t)
    (next b).runWith runner

/-- With the machine's own runner, a plan is carried out as it is by the machine. -/
theorem runWith_run (n : Nat) (p : Plan α) : p.runWith (fun t => t.run n) = p.run n := by
  induction p with
  | answer a => rfl
  | act a next ih => simp only [runWith, run, ih]
  | begin s t next ih => simp only [runWith, run, ih]

/-- Carrying out a plan begins a task, if `runner` carries out the tasks before it. -/
inductive BeginsWith (runner : (t : Task) → Run t.Answer) :
    Plan α → Machine → Task → Machine → Prop
  | now {s t next m} : BeginsWith runner (.begin s t next) m t (s.enter m)
  | act {a next m b m₁ t' m'} :
      a.run m = .ok b m₁ → BeginsWith runner (next b) m₁ t' m' →
      BeginsWith runner (.act a next) m t' m'
  | later {s t next m b m₁ t' m'} :
      s.run (runner t) m = .ok b m₁ → BeginsWith runner (next b) m₁ t' m' →
      BeginsWith runner (.begin s t next) m t' m'

/-- Plans keep what the tasks that they begin keep. -/
theorem keeps_runWith {runner : (t : Task) → Run t.Answer} (h : ∀ t, Keeps (runner t))
    (p : Plan α) : Keeps (p.runWith runner) := by
  induction p with
  | answer a => exact keeps_pure a
  | act a next ih => exact keeps_bind a.keeps ih
  | begin s t next ih => exact keeps_bind (s.keeps (h t)) ih

end Plan

/-! ## The direct reading -/

namespace Task

/-- What a task with budget does if `for` statements are read directly: the statements of a
round are not in a frame of their own. -/
def directPlan : (t : Task) → Plan t.Answer
  | .execute (.block body span) =>
    if Stmt.isRound body then .act .openBlock fun _ => .begin .here (.executeAll body) .answer
    else plan (.execute (.block body span))
  | t => t.plan

/-- Carries out a task, reading `for` statements directly. -/
def direct : Nat → (t : Task) → Run t.Answer
  | 0, t => t.run 0
  | n + 1, t => t.directPlan.runWith (direct n)

theorem direct_zero (t : Task) : t.direct 0 = t.run 0 := rfl

theorem direct_succ (n : Nat) (t : Task) :
    t.direct (n + 1) = t.directPlan.runWith (direct n) := rfl

/-- The direct reading leaves alone what all code must leave alone. -/
theorem keeps_direct (n : Nat) (t : Task) : Keeps (t.direct n) := by
  induction n generalizing t with
  | zero => exact t.keeps 0
  | succ n ih => exact Plan.keeps_runWith ih t.directPlan

section

variable (n : Nat)

theorem direct_while (condition : Expr) (body : Stmt) (span : Span) :
    (execute (.while condition body span)).direct (n + 1) = (loop condition body).direct n :=
  bind_pure _

theorem direct_loop (condition : Expr) (body : Stmt) :
    (loop condition body).direct (n + 1) = ((evaluate condition).direct n >>= fun v =>
      if v.isTruthy then (execute body).direct n >>= fun flow =>
        match flow with
        | .normal => (loop condition body).direct n
        | .return value => pure (.return value)
      else pure .normal) := by
  rw [direct_succ]
  refine congrArg _ (funext fun v => ?_)
  dsimp only
  split
  · refine congrArg _ (funext fun flow => ?_)
    cases flow with
    | normal => exact bind_pure _
    | «return» value => rfl
  · rfl

theorem direct_round {body : List Stmt} (h : Stmt.isRound body) (span : Span) :
    (execute (.block body span)).direct (n + 1) =
      (Act.openBlock.run >>= fun _ => (executeAll body).direct n) := by
  have hplan : directPlan (.execute (.block body span)) =
      .act .openBlock fun _ => .begin .here (.executeAll body) .answer := if_pos h
  rw [direct_succ, hplan]
  exact congrArg _ (funext fun _ => bind_pure _)

theorem direct_block {body : List Stmt} (h : ¬ Stmt.isRound body) (span : Span) :
    (execute (.block body span)).direct (n + 1) =
      (Act.openBlock.run >>= fun frame => inFrame frame ((executeAll body).direct n)) := by
  have hplan : directPlan (.execute (.block body span)) =
      .act .openBlock fun frame => .begin (.inFrame frame) (.executeAll body) .answer := if_neg h
  rw [direct_succ, hplan]
  exact congrArg _ (funext fun _ => bind_pure _)

theorem direct_expression (value : Expr) (span : Span) :
    (execute (.expression value span)).direct (n + 1) =
      ((evaluate value).direct n >>= fun _ => pure .normal) := rfl

theorem direct_nil : (executeAll []).direct (n + 1) = pure .normal := rfl

theorem direct_cons (s : Stmt) (ss : List Stmt) :
    (executeAll (s :: ss)).direct (n + 1) = ((execute s).direct n >>= fun flow =>
      match flow with
      | .normal => (executeAll ss).direct n
      | .return value => pure (.return value)) := by
  rw [direct_succ]
  refine congrArg _ (funext fun flow => ?_)
  cases flow with
  | normal => exact bind_pure _
  | «return» value => rfl

/-- A statement that is the last one is read as it is. -/
theorem direct_singleton (s : Stmt) :
    (executeAll [s]).direct (n + 2) = (execute s).direct (n + 1) := by
  rw [direct_cons]
  refine Eq.trans (congrArg _ (funext fun flow => ?_)) (bind_pure _)
  cases flow with
  | normal => rfl
  | «return» value => rfl

end

end Task

/-- Carrying out one task, read directly, begins another one, at any depth; the last three
arguments are the budget, the task and the machine with which it begins. -/
inductive DirectlyReaches : Nat → Task → Machine → Nat → Task → Machine → Prop
  | refl {n t m} : DirectlyReaches n t m n t m
  | step {n t m k t₁ m₁ t₂ m₂} :
      DirectlyReaches n t m (k + 1) t₁ m₁ →
      t₁.directPlan.BeginsWith (Task.direct k) m₁ t₂ m₂ →
      DirectlyReaches n t m k t₂ m₂

/-! ## One `for` statement -/

/-- A `for` statement as it is written. -/
structure ForLoop where
  /-- What is run once, before the loop. -/
  initializer : Option Stmt
  /-- What is tested before each round. -/
  condition : Option Expr
  /-- What is evaluated behind the body. -/
  increment : Option Expr
  /-- What is run in each round. -/
  body : Stmt

namespace ForLoop

/-- The tree of the condition; one that is absent is written at the node. -/
def testTree (loop : ForLoop) (node : Node) : Expr :=
  loop.condition.getD (.literal node (.bool true))

/-- The tree of the statement. -/
def tree (loop : ForLoop) (node : Node) (span : Span) : Stmt :=
  .forLoop loop.initializer (loop.testTree node) loop.increment loop.body span

/-- The tree of one round. -/
def roundTree (loop : ForLoop) (span : Span) : Stmt :=
  match loop.increment with
  | none => loop.body
  | some value => .block [loop.body, .expression value value.span] span

/-- Passes over the number of a frame. -/
def skipFrame : Run Unit := do
  let _ ← newFrame (← get).current

/-- Tests the condition, which is true if it is absent. -/
def test (loop : ForLoop) : Nat → Run Value
  | 0 => throw .exhausted
  | n + 1 =>
    match loop.condition with
    | none => return .bool true
    | some condition => (Task.evaluate condition).direct (n + 1)

/-- Runs the body and, if it ends normally, evaluates the increment. -/
def round (loop : ForLoop) (n : Nat) : Run Flow :=
  match loop.increment with
  | none => (Task.execute loop.body).direct n
  | some increment => do
    skipFrame
    match ← (Task.execute loop.body).direct (n - 2) with
    | .normal => do
      let _ ← (Task.evaluate increment).direct (n - 4)
      return .normal
    | .return value => return .return value

/-- Runs rounds as long as the condition holds, up to the first return. -/
def rounds (loop : ForLoop) : Nat → Run Flow
  | 0 => throw .exhausted
  | n + 1 => do
    let v ← loop.test n
    if v.isTruthy then
      match ← loop.round n with
      | .normal => loop.rounds n
      | .return value => return .return value
    else return .normal

/-- Runs the initializer, if there is one, in a new frame, and then the rounds, all in that
frame. -/
def direct (loop : ForLoop) : Nat → Run Flow
  | 0 => throw .exhausted
  | n + 1 =>
    match loop.initializer with
    | none => loop.rounds n
    | some initializer => do
      let frame ← newFrame (← get).current
      inFrame frame do
        match ← (Task.execute initializer).direct (n - 1) with
        | .normal => loop.rounds (n - 3)
        | .return value => return .return value

/-! ### The tree, read directly -/

variable {loop : ForLoop}

/-- Behind the body, the increment is evaluated as a statement of its own. -/
theorem direct_increment (increment : Expr) (span : Span) (n : Nat) :
    (Task.executeAll [.expression increment span]).direct n =
      ((Task.evaluate increment).direct (n - 2) >>= fun _ => pure .normal) := by
  cases n with
  | zero => rfl
  | succ n =>
    rw [Task.direct_cons]
    cases n with
    | zero => rfl
    | succ n =>
      rw [Task.direct_expression, bind_assoc]
      rfl

/-- The tree of a round is read as the body and the increment. -/
theorem direct_roundTree (hbody : loop.body.isDeclaration = false) (span : Span) (n : Nat) :
    (Task.execute (loop.roundTree span)).direct (n + 1) = loop.round (n + 1) := by
  obtain ⟨initializer, condition, increment, body⟩ := loop
  cases increment with
  | none => rfl
  | some increment =>
    have hround : Stmt.isRound [body, .expression increment increment.span] := by
      simpa [Stmt.isRound] using hbody
    have hskip (next : Run Flow) : (Act.openBlock.run >>= fun _ => next) =
        (skipFrame >>= fun _ => next) := by
      simp [skipFrame, Act.run]
    refine (Task.direct_round n hround span).trans ((hskip _).trans ?_)
    refine congrArg _ (funext fun _ => ?_)
    cases n with
    | zero => rfl
    | succ n =>
      rw [Task.direct_cons]
      refine congrArg _ (funext fun flow => ?_)
      cases flow with
      | normal => exact direct_increment increment _ n
      | «return» value => rfl

theorem direct_test (node : Node) (n : Nat) :
    (Task.evaluate (loop.testTree node)).direct n = loop.test n := by
  cases n with
  | zero => rfl
  | succ n =>
    rw [test, testTree]
    cases loop.condition with
    | none => rfl
    | some condition => rfl

/-- The loop in the tree is read as the rounds. -/
theorem direct_rounds (hbody : loop.body.isDeclaration = false) (node : Node) (span : Span)
    (n : Nat) :
    (Task.loop (loop.testTree node) (loop.roundTree span)).direct n = loop.rounds n := by
  induction n with
  | zero => rfl
  | succ n ih =>
    rw [Task.direct_loop, direct_test, rounds]
    cases n with
    | zero => rfl
    | succ n =>
      refine congrArg _ (funext fun v => ?_)
      split
      · rw [direct_roundTree hbody, ih]
        refine congrArg _ (funext fun flow => ?_)
        cases flow with
        | normal => rfl
        | «return» value => rfl
      · rfl

/-- Behind the initializer there are only the rounds. -/
theorem direct_loopAlone (hbody : loop.body.isDeclaration = false) (node : Node) (span : Span)
    (n : Nat) :
    (Task.executeAll [.while (loop.testTree node) (loop.roundTree span) span]).direct n =
      loop.rounds (n - 2) := by
  cases n with
  | zero => rfl
  | succ n =>
    cases n with
    | zero => rfl
    | succ n =>
      rw [Task.direct_singleton, Task.direct_while]
      exact direct_rounds hbody node span n

/-- **The direct reading of a `for` statement** is the direct reading of its tree. -/
theorem direct_tree (hbody : loop.body.isDeclaration = false) (node : Node) (span : Span)
    (n : Nat) : (Task.execute (loop.tree node span)).direct n = loop.direct n := by
  cases n with
  | zero => rfl
  | succ n =>
    have hrounds := direct_rounds hbody node span
    have halone := direct_loopAlone hbody node span
    obtain ⟨initializer, condition, increment, body⟩ := loop
    cases initializer with
    | none => exact (Task.direct_while n _ _ span).trans (hrounds n)
    | some initializer =>
      refine (Task.direct_block n (by simp [Stmt.isRound]) span).trans ?_
      rw [direct, Act.run, bind_assoc]
      refine congrArg _ (funext fun m => congrArg _ (funext fun frame => congrArg _ ?_))
      cases n with
      | zero => rfl
      | succ n =>
        refine (Task.direct_cons n _ _).trans (congrArg _ (funext fun flow => ?_))
        cases flow with
        | normal => exact halone n
        | «return» value => rfl

end ForLoop

end Lox
