import Lox.Proofs.Run.Code

/-!
# Programs without loops

A program without loops comes to an end, in whatever way its functions call each other
(`loopless_halts`): a budget suffices that depends on the size of its code and on the limit on
calls only.

**Cost.** The cost of a task is the size of the code that it is to run, and for each call that
may still be begun a number above the size of every body.  A task costs more than the tasks
that it begins, since a call that begins a body takes one of the calls that are left.
-/

namespace Lox

open Run

/-! ## Enough budget -/

/-- The action comes to an end: it does not stop because its budget is used up. -/
def Run.Ends {α : Type} (x : Run α) (m : Machine) : Prop := ∀ m', x m ≠ .error .exhausted m'

theorem Task.reaches_of_not_ends {n : Nat} {t : Task} {m m' : Machine}
    (h : t.run n m = .error .exhausted m') : ∃ t₁ m₁, Reaches n t m 0 t₁ m₁ := by
  obtain ⟨a, m₁, m₂, ha, hstop⟩ := origin_of_error h
  cases Act.stops_of_error hstop with
  | @spent t₁ =>
    rcases acts_mem_course.1 ha with ⟨k, t₂, m₃, -, hperforms⟩ | ⟨t₂, hreach, -⟩
    · cases hperforms
    · exact ⟨t₂, m₁, hreach⟩

/-- A plan that comes to an end does the same with another budget, if the tasks that come to
an end do. -/
theorem Plan.run_eq_of_ends {n n' : Nat} {α : Type}
    (htasks : ∀ (t : Task) (m : Machine), (t.run n).Ends m → t.run n' m = t.run n m)
    {p : Plan α} {m : Machine} (h : (p.run n).Ends m) : p.run n' m = p.run n m := by
  induction p generalizing m with
  | answer a => rfl
  | act a next ih =>
    cases hact : a.run m with
    | ok b m₁ =>
      have hnext : ((next b).run n).Ends m₁ := by
        intro m' hstop
        refine h m' ?_
        rw [run, bind_of_ok hact]
        exact hstop
      rw [run, run, bind_of_ok hact, bind_of_ok hact]
      exact ih b hnext
    | error stop m₁ => rw [run, run, bind_of_error hact, bind_of_error hact]
  | begin s t next ih =>
    have hends : (t.run n).Ends (s.enter m) := by
      intro m' hstop
      refine h (s.leave m m') ?_
      exact bind_of_error (s.run_of_error hstop)
    have hsame := htasks t (s.enter m) hends
    cases htask : t.run n (s.enter m) with
    | ok b m₁ =>
      rw [htask] at hsame
      have hnext : ((next b).run n).Ends (s.leave m m₁) := by
        intro m' hstop
        refine h m' ?_
        rw [run, bind_of_ok (s.run_of_ok htask)]
        exact hstop
      rw [run, run, bind_of_ok (s.run_of_ok htask), bind_of_ok (s.run_of_ok hsame)]
      exact ih b hnext
    | error stop m₁ =>
      rw [htask] at hsame
      rw [run, run, bind_of_error (s.run_of_error htask), bind_of_error (s.run_of_error hsame)]

/-- A task that comes to an end does the same with every larger budget. -/
theorem Task.run_eq_of_ends {n : Nat} {t : Task} {m : Machine} (h : (t.run n).Ends m)
    (more : Nat) : t.run (n + more) m = t.run n m := by
  induction n generalizing t m with
  | zero =>
    cases t with
    | instantiate | make | property => rfl
    | _ => exact absurd rfl (h m)
  | succ n ih =>
    rw [Nat.succ_add, run_succ, run_succ]
    rw [run_succ] at h
    exact Plan.run_eq_of_ends (fun t m hends => ih hends) h

/-! ## Loops in code -/

mutual
/-- The statement contains no loop, at any depth. -/
def Stmt.loopless : Stmt → Bool
  | .block body _ => Stmt.looplessAll body
  | .ifElse _ thenBranch none _ => thenBranch.loopless
  | .ifElse _ thenBranch (some elseBranch) _ => thenBranch.loopless && elseBranch.loopless
  | .while .. => false
  | .function decl _ => decl.loopless
  | .class _ methods _ => FunctionDecl.looplessAll methods
  | _ => true

/-- The statements contain no loop. -/
def Stmt.looplessAll : List Stmt → Bool
  | [] => true
  | s :: ss => s.loopless && Stmt.looplessAll ss

/-- The body of the function contains no loop. -/
def FunctionDecl.loopless : FunctionDecl → Bool
  | .mk _ _ _ body _ => Stmt.looplessAll body

/-- The bodies of the functions contain no loop. -/
def FunctionDecl.looplessAll : List FunctionDecl → Bool
  | [] => true
  | f :: fs => f.loopless && FunctionDecl.looplessAll fs
end

theorem Stmt.loopless_of_mem {s : Stmt} {ss : List Stmt} (h : Stmt.looplessAll ss = true)
    (hs : s ∈ ss) : s.loopless = true := by
  induction ss with
  | nil => cases hs
  | cons first ss ih =>
    rw [Stmt.looplessAll, Bool.and_eq_true] at h
    rcases List.mem_cons.1 hs with rfl | hs
    · exact h.1
    · exact ih h.2 hs

theorem FunctionDecl.loopless_of_mem {f : FunctionDecl} {fs : List FunctionDecl}
    (h : FunctionDecl.looplessAll fs = true) (hf : f ∈ fs) : f.loopless = true := by
  induction fs with
  | nil => cases hf
  | cons first fs ih =>
    rw [FunctionDecl.looplessAll, Bool.and_eq_true] at h
    rcases List.mem_cons.1 hf with rfl | hf
    · exact h.1
    · exact ih h.2 hf

theorem FunctionDecl.sizeOf_body_lt (f : FunctionDecl) : sizeOf f.body < sizeOf f := by
  cases f
  simp only [body, mk.sizeOf_spec]
  omega

theorem FunctionDecl.looplessAll_body {f : FunctionDecl} (h : f.loopless = true) :
    Stmt.looplessAll f.body = true := by
  cases f
  rwa [FunctionDecl.loopless] at h

/-- The code without loops whose parts have at most a given size. -/
def looplessCode (size : Nat) : Code where
  stmt s := s.loopless = true ∧ sizeOf s ≤ size
  closure f := f.decl.loopless = true ∧ sizeOf f.decl ≤ size
  declared f := f.loopless = true ∧ sizeOf f ≤ size
  method f := f.loopless = true ∧ sizeOf f ≤ size
  block := by
    rintro body span ⟨hloopless, hsize⟩ s hs
    rw [Stmt.loopless] at hloopless
    have hlt := List.sizeOf_lt_of_mem hs
    simp only [Stmt.block.sizeOf_spec] at hsize
    exact ⟨Stmt.loopless_of_mem hloopless hs, by omega⟩
  thenBranch := by
    rintro condition branch other span ⟨hloopless, hsize⟩
    simp only [Stmt.ifElse.sizeOf_spec] at hsize
    refine ⟨?_, by omega⟩
    cases other with
    | none => rwa [Stmt.loopless] at hloopless
    | some other =>
      rw [Stmt.loopless, Bool.and_eq_true] at hloopless
      exact hloopless.1
  elseBranch := by
    rintro condition other branch span ⟨hloopless, hsize⟩
    simp only [Stmt.ifElse.sizeOf_spec, Option.some.sizeOf_spec] at hsize
    rw [Stmt.loopless, Bool.and_eq_true] at hloopless
    exact ⟨hloopless.2, by omega⟩
  loop := by
    rintro condition body span ⟨hloopless, -⟩
    rw [Stmt.loopless] at hloopless
    cases hloopless
  function := by
    rintro f span ⟨hloopless, hsize⟩
    rw [Stmt.loopless] at hloopless
    simp only [Stmt.function.sizeOf_spec] at hsize
    exact ⟨hloopless, by omega⟩
  methods := by
    rintro name methods span ⟨hloopless, hsize⟩ f hf
    rw [Stmt.loopless] at hloopless
    have hlt := List.sizeOf_lt_of_mem hf
    simp only [Stmt.class.sizeOf_spec] at hsize
    exact ⟨FunctionDecl.loopless_of_mem hloopless hf, by omega⟩
  body := by
    rintro f ⟨hloopless, hsize⟩ s hs
    have hbody := f.decl.sizeOf_body_lt
    have hlt := List.sizeOf_lt_of_mem hs
    exact ⟨Stmt.loopless_of_mem (f.decl.looplessAll_body hloopless) hs, by omega⟩

/-- Functions may be declared, and methods bound, anywhere. -/
theorem admitted_looplessCode (size : Nat) (e : Event) : e.Admitted (looplessCode size) := by
  cases e with
  | begins n t m => trivial
  | acts a m => exact ⟨fun f _ hf => hf, fun i name f _ _ hmethod => hmethod⟩

/-! ## Cost -/

/-- The size of the code that the task itself is to run. -/
noncomputable def Task.size : Task → Nat
  | evaluate e => sizeOf e
  | evaluateAll es => sizeOf es
  | invoke .. => 0
  | apply f _ => sizeOf f.decl
  | instantiate .. => 0
  | make _ => 0
  | property .. => 0
  | execute s => sizeOf s
  | executeAll ss => sizeOf ss
  | loop .. => 0

/-- The calls that may still be begun. -/
def Machine.callsLeft (m : Machine) : Nat := m.maxCallDepth - m.callDepth

/-- What a task costs, if functions have at most size `size`. -/
noncomputable def Task.cost (size : Nat) (t : Task) (m : Machine) : Nat :=
  t.size + m.callsLeft * (size + 1)

theorem Machine.Steady.callsLeft {m m' : Machine} (h : m.Steady m') :
    m'.callsLeft = m.callsLeft := by
  rw [Machine.callsLeft, Machine.callsLeft, h.maxCallDepth, h.callDepth]

theorem Task.From.size_le {size : Nat} {t : Task} (h : t.From (looplessCode size))
    (hcounted : t.isCounted = true) : t.size ≤ size := by
  cases t with
  | apply f arguments => exact h.1.2
  | make c => exact Nat.zero_le _
  | _ => cases hcounted

theorem Machine.callsLeft_beginCall {m : Machine} (h : m.callDepth < m.maxCallDepth) :
    m.beginCall.callsLeft + 1 = m.callsLeft := by
  simp only [callsLeft, beginCall]
  omega

/-- A task without loops is larger than the tasks that it begins, other than calls. -/
theorem Enters.size_lt {size n : Nat} {t t' : Task} {m m' : Machine}
    (h : Enters n t m t' m') (hfrom : t.From (looplessCode size))
    (hcounted : t'.isCounted = false) : t'.size < t.size := by
  cases h with
  | apply | make => cases hcounted
  | loop => exact absurd hfrom.1 (by simp [Stmt.loopless])
  | test | round _ _ | again _ _ _ =>
    obtain ⟨span, hloopless, -⟩ := hfrom
    exact absurd hloopless (by simp [Stmt.loopless])
  | @functionBody f _ _ => exact f.decl.sizeOf_body_lt
  | _ =>
    simp only [Task.size, Expr.grouping.sizeOf_spec, Expr.unary.sizeOf_spec,
      Expr.binary.sizeOf_spec, Expr.logical.sizeOf_spec, Expr.assign.sizeOf_spec,
      Expr.call.sizeOf_spec, Expr.new.sizeOf_spec, Expr.get.sizeOf_spec, Expr.set.sizeOf_spec,
      List.cons.sizeOf_spec, Option.some.sizeOf_spec, Stmt.expression.sizeOf_spec,
      Stmt.print.sizeOf_spec, Stmt.var.sizeOf_spec, Stmt.block.sizeOf_spec,
      Stmt.ifElse.sizeOf_spec, Stmt.return.sizeOf_spec]
    omega

/-- A task without loops costs more than the tasks that it begins. -/
theorem Enters.cost_lt {size n : Nat} {t t' : Task} {m m' : Machine}
    (h : Enters n t m t' m') (hfrom : t.From (looplessCode size))
    (hfrom' : t'.From (looplessCode size)) : t'.cost size m' < t.cost size m := by
  cases h.entry with
  | after hsteady hcounted =>
    have hsize := h.size_lt hfrom hcounted
    rw [Task.cost, Task.cost, hsteady.callsLeft]
    omega
  | call hdepth hcounted =>
    have hsize : t'.size ≤ size := hfrom'.size_le hcounted
    rw [Task.cost, Task.cost, ← Machine.callsLeft_beginCall hdepth, Nat.succ_mul]
    omega
  | body | block => exact Nat.add_lt_add_right (h.size_lt hfrom rfl) _

/-- What is begun in the course of a task costs as much less as the budget has shrunk. -/
theorem Reaches.cost_le {size n k : Nat} {t t' : Task} {m m' : Machine}
    (h : Reaches n t m k t' m') (hfrom : t.From (looplessCode size))
    (hstore : m.store.From (looplessCode size)) :
    t'.cost size m' + n ≤ t.cost size m + k := by
  induction h with
  | refl => exact Nat.le_refl _
  | step hreach henter ih =>
    have hcourse := (Task.endsFrom n hfrom hstore fun e _ => admitted_looplessCode size e).course
    have hfrom₁ := (hcourse _ (Task.begins_mem_course.2 hreach)).1
    have hfrom₂ := (hcourse _ (Task.begins_mem_course.2 (.step hreach henter))).1
    have hlt := henter.cost_lt hfrom₁ hfrom₂
    omega

/-- A task without loops comes to an end if its budget exceeds its cost. -/
theorem Task.ends_of_cost_lt {size n : Nat} {t : Task} {m : Machine}
    (hfrom : t.From (looplessCode size)) (hstore : m.store.From (looplessCode size))
    (hbudget : t.cost size m < n) : (t.run n).Ends m := by
  intro m' hstop
  obtain ⟨t₁, m₁, hreach⟩ := reaches_of_not_ends hstop
  have hcost := hreach.cost_le hfrom hstore
  omega

/-! ## Programs -/

/-- Statements without loops come to an end if the budget exceeds the cost of each. -/
theorem statements_end {size budget : Nat} {ss : List Stmt} {m : Machine}
    (hfrom : ∀ s ∈ ss, (looplessCode size).stmt s) (hstore : m.store.From (looplessCode size))
    (hbudget : size + m.callsLeft * (size + 1) < budget) : (statements budget ss).Ends m := by
  induction ss generalizing m with
  | nil => exact fun m' hstop => by cases hstop
  | cons s ss ih =>
    have hs : (Task.execute s).From (looplessCode size) := hfrom s (.head _)
    have hends : ((Task.execute s).run budget).Ends m := by
      refine Task.ends_of_cost_lt hs hstore ?_
      have hsize : sizeOf s ≤ size := hs.2
      simp only [Task.cost, Task.size]
      omega
    intro m' hstop
    rcases bind_eq_error.1 hstop with hstop | ⟨flow, m₁, hrun, hstop⟩
    · exact hends m' hstop
    · have hsteady := (Task.keeps budget (.execute s)).of_ok hrun
      have hleft := (Task.endsFrom budget hs hstore fun e _ => admitted_looplessCode size e).store
      rw [endState_of_ok (show (Task.execute s).run budget m = _ from hrun)] at hleft
      rw [← hsteady.callsLeft] at hbudget
      exact ih (fun s' hs' => hfrom s' (.tail _ hs')) hleft hbudget m' hstop

/-- Statements that come to an end do the same with every larger budget. -/
theorem statements_eq_of_ends {budget : Nat} {ss : List Stmt} {m : Machine}
    (h : (statements budget ss).Ends m) (more : Nat) :
    statements (budget + more) ss m = statements budget ss m := by
  rw [← Plan.run_statements] at h
  rw [← Plan.run_statements, ← Plan.run_statements]
  exact Plan.run_eq_of_ends (fun t m hends => Task.run_eq_of_ends hends more) h

/-- **Without loops every program halts.**  For a source text whose program contains no loop
and for every limit on calls there is a budget with which a run on a fresh machine ends, with
success or with an error at run time; and with every larger budget it is the same run. -/
theorem loopless_halts {supply : Supply} {source : String} {c : Compiled}
    (hcompile : (compile supply source).result = .ok c)
    (hloopless : Stmt.looplessAll c.program.statements = true) (limit : Nat) :
    ∃ budget, ∀ output, ∃ ending session,
      (ending = .finished ∨ ∃ e, ending = .failed e) ∧
      ∀ budget', budget ≤ budget' →
        Session.step budget' ⟨Machine.initial limit output, supply⟩ source = (ending, session) := by
  let size := sizeOf c.program.statements
  let budget := size + limit * (size + 1) + 1
  have hfrom : ∀ s ∈ c.program.statements, (looplessCode size).stmt s := fun s hs =>
    ⟨Stmt.loopless_of_mem hloopless hs, Nat.le_of_lt (List.sizeOf_lt_of_mem hs)⟩
  refine ⟨budget, fun output => ?_⟩
  let m := Machine.initial limit output
  have hstore : m.store.From (looplessCode size) := Store.From.empty.addFrame none
  have hends : (statements budget c.program.statements).Ends (m.learn c.locals) :=
    statements_end hfrom hstore (Nat.lt_succ_self _)
  let run := Session.runCompiled budget m c
  refine ⟨run.1, ⟨run.2, (compile supply source).supply⟩, ?_, fun budget' hle => ?_⟩
  · simp only [run, Session.runCompiled, program_apply]
    cases h : statements budget c.program.statements (m.learn c.locals) with
    | ok u m' => exact .inl rfl
    | error stop m' =>
      cases stop with
      | error e => exact .inr ⟨e, rfl⟩
      | exhausted => exact absurd h (hends m')
  · obtain ⟨more, rfl⟩ := Nat.exists_eq_add_of_le hle
    have hsame : Session.runCompiled (budget + more) m c = run := by
      simp only [run, Session.runCompiled, program_apply, statements_eq_of_ends hends more]
    rw [Session.step_of_ok hcompile, hsame]

/-- A function that calls itself without an end halts, since the calls run out. -/
theorem loopless_halts_recursion :
    ∃ c, (compile .initial "fun f() \x7b return f(); \x7d f();").result = .ok c ∧
      Stmt.looplessAll c.program.statements = true ∧
      ∃ budget, ∀ output, ∃ ending session,
        (ending = .finished ∨ ∃ e, ending = .failed e) ∧
        ∀ budget', budget ≤ budget' →
          Session.step budget' ⟨Machine.initial 256 output, .initial⟩
            "fun f() \x7b return f(); \x7d f();" = (ending, session) := by
  let source := "fun f() \x7b return f(); \x7d f();"
  have hread : (compile .initial source).result.toOption.any
      (fun c => Stmt.looplessAll c.program.statements) = true := by decide +kernel
  cases hcompile : (compile .initial source).result with
  | error errors =>
    rw [hcompile] at hread
    exact Bool.noConfusion hread
  | ok c =>
    rw [hcompile] at hread
    exact ⟨c, rfl, hread, loopless_halts hcompile hread 256⟩

end Lox
