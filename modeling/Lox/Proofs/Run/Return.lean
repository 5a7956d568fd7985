import Lox.Proofs.Run.Course
import Lox.Proofs.Scope.Permitted
import Lox.Proofs.Syntax.Orderly

/-!
# Returning from functions

A return ends the call that it belongs to, and no other one.  Its value is the value of the
call, nothing more is done in the call, and a call in which no return is executed has the
value nil (`return_ends_its_call`).

**Activations.** `Within` is `Reaches` without entering further calls: what is begun within a
call belongs to this activation, in whatever blocks, conditions and loops it stands.

**Going out.** A return passes unchanged through whatever is begun between the call and the
return, and each of these ends with it (`Within.returns`).  Conversely, whatever ends with a
return has executed one within (`Task.Returns.origin`).
-/

namespace Lox

open Run

/-! ## Activations -/

namespace Task

/-- The task runs the body of a function, as an activation of its own. -/
def isCall : Task → Bool
  | apply .. => true
  | _ => false

/-- The task ends with the return of a value; a call may also end so by itself. -/
def Returns (n : Nat) (m : Machine) (v : Value) (m' : Machine) : Task → Prop
  | execute s => Run.execute n s m = .ok (.return v) m'
  | executeAll ss => Run.executeAll n ss m = .ok (.return v) m'
  | loop condition body => Run.loop n condition body m = .ok (.return v) m'
  | apply f arguments => Run.apply n f arguments m = .ok v m'
  | _ => False

end Task

/-- Carrying out one task begins another one, at any depth of the code but in no further
call. -/
inductive Within : Nat → Task → Machine → Nat → Task → Machine → Prop
  | refl {n t m} : Within n t m n t m
  | step {n t m k t₁ m₁ t₂ m₂} :
      Within n t m (k + 1) t₁ m₁ → Enters k t₁ m₁ t₂ m₂ → t₂.isCall = false →
      Within n t m k t₂ m₂

namespace Within

variable {n k : Nat} {t t' t'' : Task} {m m' m'' : Machine}

theorem head (henter : Enters n t m t' m') (hcall : t'.isCall = false)
    (h : Within n t' m' k t'' m'') : Within (n + 1) t m k t'' m'' := by
  induction h with
  | refl => exact .step .refl henter hcall
  | step _ hlast hcall' ih => exact .step ih hlast hcall'

end Within

/-! ## Going out -/

/-- The plan begins a task last of all, and answers `r` if this task answers `b`. -/
inductive Plan.Relays (n : Nat) {α : Type} :
    Plan α → Machine → (t : Task) → Machine → t.Answer → α → Prop
  | now {s t next m b r} : next b = .answer r → Relays n (.begin s t next) m t (s.enter m) b r
  | act {a next m c m₁ t m' b r} :
      a.run m = .ok c m₁ → Relays n (next c) m₁ t m' b r → Relays n (.act a next) m t m' b r
  | later {s t next m c m₁ t' m' b r} :
      s.run (t.run n) m = .ok c m₁ → Relays n (next c) m₁ t' m' b r →
      Relays n (.begin s t next) m t' m' b r

theorem Plan.Relays.ends {n : Nat} {α : Type} {p : Plan α} {m m' m₁ : Machine} {t : Task}
    {b : t.Answer} {r : α} (h : p.Relays n m t m' b r) (hrun : t.run n m' = .ok b m₁)
    (inner : Task → Machine → List Event) :
    (∃ m₂, p.run n m = .ok r m₂) ∧
      ∃ before, p.course n inner m = before ++ inner t m' := by
  induction h with
  | @now s t next m b r hnext =>
    have hbegin := s.run_of_ok hrun
    refine ⟨⟨s.leave m m₁, ?_⟩, [], ?_⟩
    · rw [Plan.run, bind_of_ok hbegin, hnext]
      rfl
    · rw [Plan.course, follow_of_ok hbegin, hnext]
      simp [Plan.course]
  | @act a next m c m₂ t m' b r hact _ ih =>
    obtain ⟨⟨m₃, hanswer⟩, before, hcourse⟩ := ih hrun
    refine ⟨⟨m₃, ?_⟩, .acts a m :: before, ?_⟩
    · rw [Plan.run, bind_of_ok hact]
      exact hanswer
    · rw [Plan.course, follow_of_ok hact, hcourse]
      rfl
  | @later s t next m c m₂ t' m' b r hbegin _ ih =>
    obtain ⟨⟨m₃, hanswer⟩, before, hcourse⟩ := ih hrun
    refine ⟨⟨m₃, ?_⟩, inner t (s.enter m) ++ before, ?_⟩
    · rw [Plan.run, bind_of_ok hbegin]
      exact hanswer
    · rw [Plan.course, follow_of_ok hbegin, hcourse, List.append_assoc]

/-- If the plan of a task begins another one last of all, the course of the task ends with
the course of that one. -/
theorem Task.ends_of_relays {n : Nat} (t t' : Task) {m m' m₁ : Machine} {b : t'.Answer}
    {r : t.Answer} (h : t.plan.Relays n m t' m' b r) (hrun : t'.run n m' = .ok b m₁) :
    (∃ m₂, t.run (n + 1) m = .ok r m₂) ∧
      ∃ before, t.course (n + 1) m = before ++ t'.course n m' := by
  obtain ⟨hanswer, before, hcourse⟩ := h.ends hrun fun t m => t.course n m
  rw [← run_succ] at hanswer
  refine ⟨hanswer, .begins (n + 1) t m :: before, ?_⟩
  rw [course, hcourse]
  rfl

/-- A return passes through the task that has begun the returning one, and ends it. -/
theorem Enters.returns {n : Nat} {t t' : Task} {m m' m₁ : Machine} {v : Value}
    (h : Enters n t m t' m') (hcall : t'.isCall = false) (hreturn : t'.Returns n m' v m₁) :
    (∃ m₂, t.Returns (n + 1) m v m₂) ∧
      ∃ before, t.course (n + 1) m = before ++ t'.course n m' := by
  cases h with
  | @functionBody f arguments m =>
    exact Task.ends_of_relays (.apply f arguments) (.executeAll f.decl.body)
      (b := .return v) (.act rfl (.now rfl)) hreturn
  | @blockBody body span m =>
    exact Task.ends_of_relays (.execute (.block body span)) (.executeAll body)
      (b := .return v) (.act rfl (.now rfl)) hreturn
  | @thenBranch condition thenBranch elseBranch span m u m' h hu =>
    refine Task.ends_of_relays (.execute (.ifElse condition thenBranch elseBranch span))
      (.execute thenBranch) (b := .return v) (.later h ?_) hreturn
    rw [if_pos hu]
    exact .now rfl
  | @elseBranch condition thenBranch elseBranch span m u m' h hu =>
    refine Task.ends_of_relays
      (.execute (.ifElse condition thenBranch (some elseBranch) span))
      (.execute elseBranch) (b := .return v) (.later h ?_) hreturn
    rw [if_neg (Bool.eq_false_iff.1 hu)]
    exact .now rfl
  | @loop condition body span m =>
    exact Task.ends_of_relays (.execute (.while condition body span))
      (.loop condition body) (b := .return v) (.now rfl) hreturn
  | @firstStmt s ss m =>
    exact Task.ends_of_relays (.executeAll (s :: ss)) (.execute s)
      (b := .return v) (.now rfl) hreturn
  | @otherStmts s ss m m' h =>
    exact Task.ends_of_relays (.executeAll (s :: ss)) (.executeAll ss)
      (b := .return v) (.later h (.now rfl)) hreturn
  | @round condition body m u m' h hu =>
    refine Task.ends_of_relays (.loop condition body) (.execute body)
      (b := .return v) (.later h ?_) hreturn
    rw [if_pos hu]
    exact .now rfl
  | @again condition body m u m₁ m₂ h hu hbody =>
    refine Task.ends_of_relays (.loop condition body) (.loop condition body)
      (b := .return v) (.later h ?_) hreturn
    rw [if_pos hu]
    exact .later hbody (.now rfl)
  | apply => cases hcall
  | _ => exact hreturn.elim

/-- A return passes through all that is under way in its activation, and ends it. -/
theorem Within.returns {n k : Nat} {t t' : Task} {m m' m₁ : Machine} {v : Value}
    (h : Within n t m k t' m') (hreturn : t'.Returns k m' v m₁) :
    (∃ m₂, t.Returns n m v m₂) ∧ ∃ before, t.course n m = before ++ t'.course k m' := by
  induction h generalizing m₁ with
  | refl => exact ⟨⟨m₁, hreturn⟩, [], rfl⟩
  | step _ henter hcall ih =>
    obtain ⟨⟨m₂, hreturn'⟩, before, hcourse⟩ := henter.returns hcall hreturn
    obtain ⟨hfirst, before', hcourse'⟩ := ih hreturn'
    exact ⟨hfirst, before' ++ before, by rw [hcourse', hcourse, List.append_assoc]⟩

/-! ## Where a return comes from -/

/-- The value of a return: that of its expression, or nil if there is none. -/
def Run.returned (n : Nat) : Option Expr → Run Value
  | none => pure .nil
  | some e => evaluate n e

theorem execute_return_of_ok {n : Nat} {value : Option Expr} {span : Span} {m m' : Machine}
    {v : Value} (h : returned n value m = .ok v m') :
    execute (n + 1) (.return value span) m = .ok (.return v) m' := by
  cases value with
  | none =>
    cases h
    rfl
  | some e =>
    rw [execute, bind_of_ok (show evaluate n e m = .ok v m' from h)]
    rfl

/-- Within the task, a return statement evaluates its value `v`. -/
def Task.HasReturn (n : Nat) (t : Task) (m : Machine) (v : Value) : Prop :=
  ∃ k value span m₁ m₂, Within n t m (k + 1) (.execute (.return value span)) m₁ ∧
    returned k value m₁ = .ok v m₂

theorem Task.HasReturn.head {n : Nat} {t t' : Task} {m m' : Machine} {v : Value}
    (h : t'.HasReturn n m' v) (henter : Enters n t m t' m') (hcall : t'.isCall = false) :
    t.HasReturn (n + 1) m v := by
  obtain ⟨k, value, span, m₁, m₂, hwithin, hreturn⟩ := h
  exact ⟨k, value, span, m₁, m₂, .head henter hcall hwithin, hreturn⟩

section

variable {n : Nat} {m m' : Machine} {v : Value}
  (ih : ∀ {t : Task} {m m' : Machine}, t.Returns n m v m' → t.isCall = false →
    t.HasReturn n m v)

include ih

theorem Task.Returns.origin_execute {s : Stmt}
    (h : (Task.execute s).Returns (n + 1) m v m') :
    (Task.execute s).HasReturn (n + 1) m v := by
  replace h : (Task.execute s).run (n + 1) m = .ok (.return v) m' := h
  rw [run_succ] at h
  cases s with
  | block body span =>
    simp only [plan, Plan.run_act_eq_ok, Plan.run_begin_eq_ok] at h
    obtain ⟨frame, m₁, hopen, flow, m₂, hbody, hanswer⟩ := h
    cases hopen
    cases hanswer
    exact (ih (t := .executeAll body) hbody rfl).head .blockBody rfl
  | ifElse condition thenBranch elseBranch span =>
    simp only [plan, Plan.run_begin_eq_ok] at h
    obtain ⟨u, m₁, hu, h⟩ := h
    by_cases htruthy : u.isTruthy
    · simp only [htruthy, if_true, Plan.run_begin_eq_ok] at h
      obtain ⟨flow, m₂, hbranch, hanswer⟩ := h
      cases hanswer
      exact (ih (t := .execute thenBranch) hbranch rfl).head (.thenBranch hu htruthy) rfl
    · cases elseBranch with
      | none => simp [htruthy] at h
      | some branch =>
        rw [if_neg htruthy] at h
        simp only [Plan.run_begin_eq_ok] at h
        obtain ⟨flow, m₂, hbranch, hanswer⟩ := h
        cases hanswer
        exact (ih (t := .execute branch) hbranch rfl).head
          (.elseBranch hu (Bool.eq_false_iff.2 htruthy)) rfl
  | «while» condition body span =>
    simp only [plan, Plan.run_begin_eq_ok] at h
    obtain ⟨flow, m₁, hloop, hanswer⟩ := h
    cases hanswer
    exact (ih (t := .loop condition body) hloop rfl).head .loop rfl
  | «return» value span =>
    refine ⟨n, value, span, m, ?_⟩
    cases value with
    | none =>
      cases h
      exact ⟨m, .refl, rfl⟩
    | some value =>
      simp only [plan, Plan.run_begin_eq_ok] at h
      obtain ⟨u, m₁, hu, hanswer⟩ := h
      cases hanswer
      exact ⟨m₁, .refl, hu⟩
  | var name initializer span => cases initializer <;> simp [plan] at h
  | _ => simp [plan] at h

theorem Task.Returns.origin_executeAll {ss : List Stmt}
    (h : (Task.executeAll ss).Returns (n + 1) m v m') :
    (Task.executeAll ss).HasReturn (n + 1) m v := by
  replace h : (executeAll ss).run (n + 1) m = .ok (.return v) m' := h
  rw [run_succ] at h
  cases ss with
  | nil => simp [plan] at h
  | cons s ss =>
    simp only [plan, Plan.run_begin_eq_ok] at h
    obtain ⟨flow, m₁, hs, h⟩ := h
    cases flow with
    | normal =>
      simp only [Plan.run_begin_eq_ok] at h
      obtain ⟨flow, m₂, hss, hanswer⟩ := h
      cases hanswer
      exact (ih (t := .executeAll ss) hss rfl).head (.otherStmts hs) rfl
    | «return» u =>
      cases h
      exact (ih (t := .execute s) hs rfl).head .firstStmt rfl

theorem Task.Returns.origin_loop {condition : Expr} {body : Stmt}
    (h : (Task.loop condition body).Returns (n + 1) m v m') :
    (Task.loop condition body).HasReturn (n + 1) m v := by
  replace h : (loop condition body).run (n + 1) m = .ok (.return v) m' := h
  rw [run_succ] at h
  simp only [plan, Plan.run_begin_eq_ok] at h
  obtain ⟨u, m₁, hu, h⟩ := h
  by_cases htruthy : u.isTruthy
  · simp only [htruthy, if_true, Plan.run_begin_eq_ok] at h
    obtain ⟨flow, m₂, hbody, h⟩ := h
    cases flow with
    | normal =>
      simp only [Plan.run_begin_eq_ok] at h
      obtain ⟨flow, m₃, hloop, hanswer⟩ := h
      cases hanswer
      exact (ih (t := .loop condition body) hloop rfl).head (.again hu htruthy hbody) rfl
    | «return» w =>
      cases h
      exact (ih (t := .execute body) hbody rfl).head (.round hu htruthy) rfl
  · simp [htruthy] at h

end

/-- What is not a call ends with a return only if a return statement within it has evaluated
this value. -/
theorem Task.Returns.origin {n : Nat} {t : Task} {m m' : Machine} {v : Value}
    (h : t.Returns n m v m') (hcall : t.isCall = false) : t.HasReturn n m v := by
  induction n generalizing t m m' with
  | zero => cases t <;> cases h
  | succ n ih =>
    cases t with
    | execute s => exact h.origin_execute ih
    | executeAll ss => exact h.origin_executeAll ih
    | loop condition body => exact h.origin_loop ih
    | apply => cases hcall
    | _ => exact h.elim

/-- A call answers the value of a return statement within it, or nil at the end of its
body. -/
theorem Run.apply_eq_ok {n : Nat} {f : Closure} {arguments : List Value} {m m' : Machine}
    {v : Value} (h : apply n f arguments m = .ok v m') :
    (Task.apply f arguments).HasReturn n m v ∨
      v = .nil ∧ ∃ k m₁, n = k + 1 ∧
        executeAll k f.decl.body (m.openBody f arguments) = .ok .normal m₁ := by
  cases n with
  | zero => cases h
  | succ n =>
    replace h : (Task.apply f arguments).run (n + 1) m = .ok v m' := h
    rw [Task.run_succ] at h
    simp only [Task.plan, Plan.run_act_eq_ok, Plan.run_begin_eq_ok] at h
    obtain ⟨frame, m₁, hopen, flow, m₂, hbody, hanswer⟩ := h
    cases hopen
    cases hanswer
    cases flow with
    | normal => exact .inr ⟨rfl, n, m₂, rfl, hbody⟩
    | «return» w =>
      exact .inl ((Task.Returns.origin (t := .executeAll f.decl.body) hbody rfl).head
        .functionBody rfl)

/-- Without a return, a loop ends with a test of its condition that fails. -/
theorem Run.loop_eq_ok_normal {n : Nat} {condition : Expr} {body : Stmt} {m m' : Machine}
    (h : loop n condition body m = .ok .normal m') :
    ∃ k m₁ v, Within n (.loop condition body) m (k + 1) (.loop condition body) m₁ ∧
      evaluate k condition m₁ = .ok v m' ∧ v.isTruthy = false := by
  induction n generalizing m with
  | zero => cases h
  | succ n ih =>
    replace h : (Task.loop condition body).run (n + 1) m = .ok .normal m' := h
    rw [Task.run_succ] at h
    simp only [Task.plan, Plan.run_begin_eq_ok] at h
    obtain ⟨v, m₁, hv, h⟩ := h
    by_cases htruthy : v.isTruthy
    · rw [if_pos htruthy, Plan.run_begin_eq_ok] at h
      obtain ⟨flow, m₂, hbody, h⟩ := h
      cases flow with
      | normal =>
        simp only [Plan.run_begin_eq_ok] at h
        obtain ⟨flow, m₃, hloop, hanswer⟩ := h
        cases hanswer
        obtain ⟨k, m₄, u, hwithin, hu, hfalsy⟩ := ih hloop
        exact ⟨k, m₄, u, hwithin.head (.again hv htruthy hbody) rfl, hu, hfalsy⟩
      | «return» w => cases h
    · rw [if_neg htruthy] at h
      cases h
      exact ⟨n, m, v, .refl, hv, Bool.eq_false_iff.2 htruthy⟩

/-- Without a return, statements in order end after the last of them. -/
theorem Run.executeAll_eq_ok_normal {n : Nat} {ss : List Stmt} {m m' : Machine}
    (h : executeAll n ss m = .ok .normal m') :
    ∀ s ∈ ss, ∃ k m₁ m₂, Within n (.executeAll ss) m k (.execute s) m₁ ∧
      execute k s m₁ = .ok .normal m₂ := by
  induction n generalizing ss m with
  | zero => cases h
  | succ n ih =>
    cases ss with
    | nil => simp
    | cons first ss =>
      replace h : (Task.executeAll (first :: ss)).run (n + 1) m = .ok .normal m' := h
      rw [Task.run_succ] at h
      simp only [Task.plan, Plan.run_begin_eq_ok] at h
      obtain ⟨flow, m₁, hfirst, h⟩ := h
      cases flow with
      | normal =>
        simp only [Plan.run_begin_eq_ok] at h
        obtain ⟨flow, m₂, hss, hanswer⟩ := h
        cases hanswer
        intro s hs
        rcases List.mem_cons.1 hs with rfl | hs
        · exact ⟨n, m, m₁, .step .refl .firstStmt rfl, hfirst⟩
        · obtain ⟨k, m₃, m₄, hwithin, hnormal⟩ := ih hss s hs
          exact ⟨k, m₃, m₄, hwithin.head (.otherStmts hfirst) rfl, hnormal⟩
      | «return» w => cases h

/-! ## Returns at top level -/

/-- The statements of the task are permitted in these surroundings.  A call is not judged by
the surroundings that it is made in. -/
def Task.Permitted (around : Enclosing) : Task → Prop
  | execute s => s.Permitted around
  | executeAll ss => Stmt.PermittedAll around ss
  | loop _ body => body.Permitted around
  | apply .. => False
  | _ => True

theorem Enters.permitted {n : Nat} {t t' : Task} {m m' : Machine} {around : Enclosing}
    (h : Enters n t m t' m') (hcall : t'.isCall = false) (ht : t.Permitted around) :
    t'.Permitted around := by
  cases h with
  | functionBody => exact ht.elim
  | apply => cases hcall
  | blockBody => simpa [Task.Permitted, Stmt.Permitted] using ht
  | @thenBranch _ _ elseBranch =>
    cases elseBranch with
    | none => exact ht.2
    | some branch => exact ht.2.1
  | elseBranch => exact ht.2.2
  | loop => exact ht.2
  | firstStmt => exact ht.1
  | otherStmts => exact ht.2
  | round => exact ht
  | again => exact ht
  | _ => trivial

theorem Within.permitted {n k : Nat} {t t' : Task} {m m' : Machine} {around : Enclosing}
    (h : Within n t m k t' m') (ht : t.Permitted around) : t'.Permitted around := by
  induction h with
  | refl => exact ht
  | step _ henter hcall ih => exact henter.permitted hcall ih

/-- A statement that is permitted outside of functions never ends with a return. -/
theorem Stmt.Permitted.not_returns {s : Stmt} {around : Enclosing} (h : s.Permitted around)
    (hfunction : around.inFunction = false) (n : Nat) (m m' : Machine) (v : Value) :
    execute n s m ≠ .ok (.return v) m' := by
  intro hreturn
  obtain ⟨k, value, span, m₁, m₂, hwithin, -⟩ :=
    Task.Returns.origin (t := .execute s) hreturn rfl
  have hpermitted : (Stmt.return value span).Permitted around :=
    hwithin.permitted (t := .execute s) h
  rw [Stmt.Permitted, hfunction] at hpermitted
  exact Bool.noConfusion hpermitted.1

/-- **A return ends exactly its own call.**  No statement at top level ends with a return.
When a return statement within a call has evaluated its value, nothing more is done in the
call, and this is the value of the call; a call whose body ends without a return has the value
nil, and a call has a value in no other way.  Whatever else ends with a return has executed one
within the same activation: without one, statements in order end after the last of them and
loops with a test that fails. -/
theorem return_ends_its_call :
    (∀ (supply : Supply) (source : String) (c : Compiled),
      (compile supply source).result = .ok c → ∀ s ∈ c.program.statements,
      ∀ (budget : Nat) (m m' : Machine) (v : Value),
        execute budget s m ≠ .ok (.return v) m') ∧
    (∀ (n k : Nat) (f : Closure) (arguments : List Value) (m m₁ m₂ : Machine)
      (value : Option Expr) (span : Span) (v : Value),
      Within n (.apply f arguments) m (k + 1) (.execute (.return value span)) m₁ →
      returned k value m₁ = .ok v m₂ →
      (∃ m', apply n f arguments m = .ok v m') ∧
      (∃ before, (Task.apply f arguments).course n m =
        before ++ (Task.execute (.return value span)).course (k + 1) m₁) ∧
      ∀ (paren : Span) (m₀ : Machine),
        Enters n (.invoke (.function f) arguments paren) m₀ (.apply f arguments) m →
        ∃ m', invoke (n + 1) (.function f) arguments paren m₀ = .ok v m') ∧
    (∀ (n : Nat) (f : Closure) (arguments : List Value) (m m₁ : Machine) (flow : Flow),
      executeAll n f.decl.body (m.openBody f arguments) = .ok flow m₁ →
      (∀ w, ¬ (Task.apply f arguments).HasReturn (n + 1) m w) →
      flow = .normal ∧ ∃ m', apply (n + 1) f arguments m = .ok .nil m') ∧
    (∀ (n : Nat) (f : Closure) (arguments : List Value) (m m' : Machine) (v : Value),
      apply n f arguments m = .ok v m' →
      (Task.apply f arguments).HasReturn n m v ∨
        v = .nil ∧ ∃ k m₁, n = k + 1 ∧
          executeAll k f.decl.body (m.openBody f arguments) = .ok .normal m₁) ∧
    (∀ (n : Nat) (t : Task) (m m' : Machine) (v : Value),
      t.isCall = false → t.Returns n m v m' → t.HasReturn n m v) ∧
    (∀ (n : Nat) (ss : List Stmt) (m m' : Machine),
      executeAll n ss m = .ok .normal m' →
      ∀ s ∈ ss, ∃ k m₁ m₂, Within n (.executeAll ss) m k (.execute s) m₁ ∧
        execute k s m₁ = .ok .normal m₂) ∧
    (∀ (n : Nat) (condition : Expr) (body : Stmt) (m m' : Machine),
      loop n condition body m = .ok .normal m' →
      ∃ k m₁ v, Within n (.loop condition body) m (k + 1) (.loop condition body) m₁ ∧
        evaluate k condition m₁ = .ok v m' ∧ v.isTruthy = false) := by
  refine ⟨fun supply source c hcompile s hs budget m m' v => ?_,
    fun n k f arguments m m₁ m₂ value span v hwithin hvalue => ?_,
    fun n f arguments m m₁ flow hbody hnone => ?_,
    fun n f arguments m m' v happly => apply_eq_ok happly,
    fun n t m m' v hcall hreturn => hreturn.origin hcall,
    fun n ss m m' h => executeAll_eq_ok_normal h,
    fun n condition body m m' h => loop_eq_ok_normal h⟩
  · obtain ⟨tokens, -, -, -, -, hresolve⟩ := compile_eq_ok hcompile
    have hpermitted := Stmt.permittedAll_iff.1 (Program.permitted_of_resolve hresolve) s hs
    exact hpermitted.not_returns rfl budget m m' v
  · obtain ⟨⟨m', happly⟩, hcourse⟩ := hwithin.returns (execute_return_of_ok hvalue)
    refine ⟨⟨m', happly⟩, hcourse, fun paren m₀ henter => ?_⟩
    cases henter with
    | apply harity hdepth =>
      exact (Task.ends_of_relays (.invoke (.function f) arguments paren)
        (.apply f arguments)
        (.act (checkCall_eq_ok.2 ⟨harity, hdepth, rfl⟩) (.now rfl)) happly).1
  · cases flow with
    | normal => exact ⟨rfl, _, apply_of_ok hbody⟩
    | «return» w =>
      have hreturn : (Task.executeAll f.decl.body).HasReturn n (m.openBody f arguments) w :=
        Task.Returns.origin (t := .executeAll f.decl.body) hbody rfl
      exact absurd (hreturn.head .functionBody rfl) (hnone w)

end Lox
