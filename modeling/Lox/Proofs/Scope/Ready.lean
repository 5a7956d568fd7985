import Lox.Proofs.Run.Steady
import Lox.Proofs.Scope.Rooted

/-!
# Tasks that are ready

A task is ready on a machine if the chain of frames from the current one on mirrors the
place of the code that the task is to run, and the functions that it is to call are
rooted.  It stays ready while other code runs.  A task that is ready begins only tasks
that are ready as well (`Enters.ready`), as long as what has answered before left the
store rooted.
-/

namespace Lox

open Run

/-- An expression is one of its own occurrences. -/
theorem Expr.mem_occurrences (e : Expr) (place : Place) :
    ⟨e, place⟩ ∈ e.occurrences place := by
  cases e <;> simp [Expr.occurrences]

theorem FunctionDecl.occurrences_eq (place : Place) (f : FunctionDecl) :
    f.occurrences place = Stmt.occurrencesAll (FunctionDecl.inside place f) f.body := by
  cases f
  rw [FunctionDecl.occurrences]
  rfl

section

variable (history : History) (known : Occurrence → Prop)

/-- The current chain of frames mirrors a place at which the occurrences are known. -/
def Machine.Mirrors (m : Machine) (place : Place) (os : List Occurrence) : Prop :=
  Lox.Mirrors history m.store place m.current ∧ ∀ o ∈ os, known o

/-- What a task needs to find on the machine on which it is begun. -/
def Task.Ready (m : Machine) : Task → Prop
  | .evaluate e => ∃ place, m.Mirrors history known place (e.occurrences place)
  | .evaluateAll es => ∃ place, m.Mirrors history known place (Expr.occurrencesAll place es)
  | .invoke callee arguments _ =>
    callee.Rooted history known m.store ∧
      ∀ value ∈ arguments, value.Rooted history known m.store
  | .apply f arguments =>
    (∃ place, f.RootedAt history known m.store place) ∧
      arguments.length = f.decl.arity ∧
      ∀ value ∈ arguments, value.Rooted history known m.store
  | .execute s => s.Orderly ∧ ∃ place, m.Mirrors history known place (s.occurrences place)
  | .executeAll ss =>
    Stmt.OrderlyAll ss ∧
      ∃ place, m.Mirrors history known place (Stmt.occurrencesAll place ss)
  | .loop condition body =>
    (body.Orderly ∧ body.isDeclaration = false) ∧ ∃ place,
      m.Mirrors history known place (condition.occurrences place ++ body.occurrences place)
  | .instantiate .. => True
  | .make _ => True
  | .property .. => True

/-- The store is rooted, and the distances of all that is known are noted. -/
structure Machine.Rooted (m : Machine) : Prop where
  /-- The store is rooted. -/
  store : m.store.Rooted history known
  /-- The distances are those that the places give. -/
  locals : ∀ o, known o → o.IsAddressed m.locals

/-- The functions that a statement may return are rooted. -/
def Flow.Rooted (s : Store) : Flow → Prop
  | .normal => True
  | .return value => value.Rooted history known s

/-- The functions in what a task answers are rooted. -/
def Task.AnswersRooted (s : Store) : (t : Task) → t.Answer → Prop
  | .evaluate _, value => Value.Rooted history known s value
  | .evaluateAll _, values => ∀ value ∈ values, Value.Rooted history known s value
  | .invoke .., value => Value.Rooted history known s value
  | .apply .., value => Value.Rooted history known s value
  | .instantiate .., value => Value.Rooted history known s value
  | .make _, value => Value.Rooted history known s value
  | .property .., value => Value.Rooted history known s value
  | .execute _, flow => Flow.Rooted history known s flow
  | .executeAll _, flow => Flow.Rooted history known s flow
  | .loop .., flow => Flow.Rooted history known s flow

/-- However an action ends, the store is rooted, and what it answers satisfies a
condition. -/
def EndsRooted {α : Type} (x : Run α) (m : Machine) (answer : Store → α → Prop) : Prop :=
  match x m with
  | .ok a m' => m'.store.Rooted history known ∧ answer m'.store a
  | .error _ m' => m'.store.Rooted history known

/-- What a task of the history begins is in the history. -/
def History.Closed : Prop :=
  ∀ n t m t' m', history.begins (n + 1) t m → Enters n t m t' m' → history.begins n t' m'

/-- With this budget, every task of the history that is ready leaves the store
rooted. -/
def History.CarriesOut (n : Nat) : Prop :=
  ∀ t m, history.begins n t m → m.Rooted history known → t.Ready history known m →
    EndsRooted history known (t.run n) m (t.AnswersRooted history known)

end

variable {history : History} {known : Occurrence → Prop} {m m' : Machine}

namespace Machine

theorem Mirrors.steady {place : Place} {os : List Occurrence}
    (h : m.Mirrors history known place os) (hs : m.Steady m') :
    m'.Mirrors history known place os := by
  obtain ⟨hmirrors, hknown⟩ := h
  refine ⟨?_, hknown⟩
  rw [hs.current]
  exact hmirrors.grow hs.store

theorem Mirrors.subset {place : Place} {os os' : List Occurrence}
    (h : m.Mirrors history known place os) (hos : ∀ o ∈ os', o ∈ os) :
    m.Mirrors history known place os' :=
  ⟨h.1, fun o ho => h.2 o (hos o ho)⟩

theorem Mirrors.left {place : Place} {os os' : List Occurrence}
    (h : m.Mirrors history known place (os ++ os')) : m.Mirrors history known place os :=
  h.subset fun _ ho => List.mem_append_left _ ho

theorem Mirrors.right {place : Place} {os os' : List Occurrence}
    (h : m.Mirrors history known place (os ++ os')) : m.Mirrors history known place os' :=
  h.subset fun _ ho => List.mem_append_right _ ho

end Machine

/-! ## Statements move the place -/

/-- A statement that is followed by another one leaves a chain of frames that mirrors the
place behind it. -/
theorem Mirrors.execute {n : Nat} {s : Stmt} {place : Place} (horderly : s.Orderly)
    (hm : Mirrors history m.store place m.current)
    (h : Run.execute n s m = .ok .normal m') :
    Mirrors history m'.store (s.leave place) m'.current := by
  have hsteady : m.Steady m' := (Task.keeps n (.execute s)).of_ok h
  cases n with
  | zero => cases h
  | succ n =>
    cases s with
    | var name initializer span =>
      cases initializer with
      | none =>
        rw [Run.execute, bind_of_ok (define_apply _ _ _)] at h
        cases h
        exact (hm.declare name).define name _
      | some initializer =>
        rw [Run.execute, bind_eq_ok] at h
        obtain ⟨value, m₁, hvalue, h⟩ := h
        rw [bind_of_ok (define_apply _ _ _)] at h
        cases h
        have hkept : m.Steady m₁ := (Task.keeps n (.evaluate initializer)).of_ok hvalue
        have hm₁ := hm.grow hkept.store
        rw [← hkept.current] at hm₁
        exact (hm₁.declare name).define name _
    | function decl span =>
      rw [Run.execute, bind_of_ok (get_apply m), bind_of_ok (define_apply _ _ _)] at h
      cases h
      exact hm.define decl.name _
    | «class» name methods span =>
      rw [Run.execute, bind_of_ok (defineClass_apply _ _ m)] at h
      cases h
      exact (hm.define name .nil).grow ((Store.Grows.addClass _ _).trans (.define _ _ _ _))
    | _ =>
      rw [Stmt.leave_of_not_declaration horderly rfl, hsteady.current]
      exact hm.grow hsteady.store

/-! ## Tasks that are begun -/

/-- Where a task of the history answers, the store is rooted, and so is the answer. -/
theorem History.CarriesOut.of_ok {n : Nat} (h : history.CarriesOut known n) {t : Task}
    (hbegins : history.begins n t m) (hm : m.Rooted history known)
    (hready : t.Ready history known m) {a : t.Answer} (hrun : t.run n m = .ok a m') :
    m'.Rooted history known ∧ t.AnswersRooted history known m'.store a ∧ m.Steady m' := by
  have hends := h t m hbegins hm hready
  rw [EndsRooted, hrun] at hends
  have hsteady : m.Steady m' := (Task.keeps n t).of_ok hrun
  refine ⟨⟨hends.1, fun o ho => ?_⟩, hends.2, hsteady⟩
  rw [hsteady.locals]
  exact hm.locals o ho

theorem History.CarriesOut.evaluated {n : Nat} (h : history.CarriesOut known n) {e : Expr}
    (hbegins : history.begins n (.evaluate e) m) (hm : m.Rooted history known)
    (hready : Task.Ready history known m (.evaluate e)) {v : Value}
    (hv : evaluate n e m = .ok v m') :
    m'.Rooted history known ∧ v.Rooted history known m'.store ∧ m.Steady m' :=
  h.of_ok hbegins hm hready hv

theorem History.CarriesOut.evaluatedAll {n : Nat} (h : history.CarriesOut known n)
    {es : List Expr} (hbegins : history.begins n (.evaluateAll es) m)
    (hm : m.Rooted history known) (hready : Task.Ready history known m (.evaluateAll es))
    {vs : List Value} (hvs : evaluateAll n es m = .ok vs m') :
    m'.Rooted history known ∧ (∀ v ∈ vs, v.Rooted history known m'.store) ∧ m.Steady m' :=
  h.of_ok hbegins hm hready hvs

theorem History.CarriesOut.executed {n : Nat} (h : history.CarriesOut known n) {s : Stmt}
    (hbegins : history.begins n (.execute s) m) (hm : m.Rooted history known)
    (hready : Task.Ready history known m (.execute s)) {flow : Flow}
    (hs : execute n s m = .ok flow m') : m'.Rooted history known ∧ m.Steady m' := by
  obtain ⟨hm', -, hsteady⟩ := h.of_ok (t := .execute s) hbegins hm hready hs
  exact ⟨hm', hsteady⟩

theorem History.Closed.enters {n : Nat} {t t' : Task} (h : history.Closed)
    (hbegins : history.begins (n + 1) t m) (henter : Enters n t m t' m') :
    history.begins n t' m' :=
  h n t m t' m' hbegins henter

section

variable {n : Nat} {t' : Task} (hclosed : history.Closed)
  (hcarries : history.CarriesOut known n) (hm : m.Rooted history known)

include hclosed hcarries hm

theorem Enters.ready_of_evaluate {e : Expr} (h : Enters n (.evaluate e) m t' m')
    (hbegins : history.begins (n + 1) (.evaluate e) m)
    (hready : Task.Ready history known m (.evaluate e)) :
    m'.Rooted history known ∧ t'.Ready history known m' := by
  obtain ⟨place, hplace⟩ := hready
  cases h with
  | inner | operand | assigned | object =>
    rw [Expr.occurrences] at hplace
    exact ⟨hm, place, hplace.left⟩
  | left | decider | callee | newCallee =>
    rw [Expr.occurrences] at hplace
    exact ⟨hm, place, hplace.left.left⟩
  | right hleft =>
    rw [Expr.occurrences] at hplace
    obtain ⟨hm', -, hsteady⟩ :=
      hcarries.evaluated (hclosed.enters hbegins .left) hm ⟨place, hplace.left.left⟩ hleft
    exact ⟨hm', place, hplace.left.right.steady hsteady⟩
  | undecided hleft _ =>
    rw [Expr.occurrences] at hplace
    obtain ⟨hm', -, hsteady⟩ :=
      hcarries.evaluated (hclosed.enters hbegins .decider) hm ⟨place, hplace.left.left⟩ hleft
    exact ⟨hm', place, hplace.left.right.steady hsteady⟩
  | arguments hcallee =>
    rw [Expr.occurrences] at hplace
    obtain ⟨hm', -, hsteady⟩ :=
      hcarries.evaluated (hclosed.enters hbegins .callee) hm ⟨place, hplace.left.left⟩ hcallee
    exact ⟨hm', place, hplace.left.right.steady hsteady⟩
  | newArguments hcallee =>
    rw [Expr.occurrences] at hplace
    obtain ⟨hm', -, hsteady⟩ :=
      hcarries.evaluated (hclosed.enters hbegins .newCallee) hm ⟨place, hplace.left.left⟩ hcallee
    exact ⟨hm', place, hplace.left.right.steady hsteady⟩
  | invoke hcallee harguments =>
    rw [Expr.occurrences] at hplace
    obtain ⟨hm₁, hf, hsteady₁⟩ :=
      hcarries.evaluated (hclosed.enters hbegins .callee) hm ⟨place, hplace.left.left⟩ hcallee
    obtain ⟨hm₂, hvs, hsteady₂⟩ :=
      hcarries.evaluatedAll (hclosed.enters hbegins (.arguments hcallee)) hm₁
        ⟨place, hplace.left.right.steady hsteady₁⟩ harguments
    exact ⟨hm₂, hf.grow hsteady₂.store, hvs⟩
  | instantiate hcallee harguments =>
    rw [Expr.occurrences] at hplace
    obtain ⟨hm₁, -, hsteady₁⟩ :=
      hcarries.evaluated (hclosed.enters hbegins .newCallee) hm ⟨place, hplace.left.left⟩ hcallee
    obtain ⟨hm₂, -, -⟩ :=
      hcarries.evaluatedAll (hclosed.enters hbegins (.newArguments hcallee)) hm₁
        ⟨place, hplace.left.right.steady hsteady₁⟩ harguments
    exact ⟨hm₂, trivial⟩
  | property hobject =>
    rw [Expr.occurrences] at hplace
    obtain ⟨hm', -, -⟩ :=
      hcarries.evaluated (hclosed.enters hbegins .object) hm ⟨place, hplace.left⟩ hobject
    exact ⟨hm', trivial⟩
  | target =>
    rw [Expr.occurrences] at hplace
    exact ⟨hm, place, hplace.left.right⟩
  | written hobject =>
    rw [Expr.occurrences] at hplace
    obtain ⟨hm', -, hsteady⟩ :=
      hcarries.evaluated (hclosed.enters hbegins .target) hm ⟨place, hplace.left.right⟩ hobject
    exact ⟨hm', place, hplace.left.left.steady hsteady⟩

theorem Enters.ready_of_execute {s : Stmt} (h : Enters n (.execute s) m t' m')
    (hbegins : history.begins (n + 1) (.execute s) m)
    (hready : Task.Ready history known m (.execute s)) :
    m'.Rooted history known ∧ t'.Ready history known m' := by
  obtain ⟨horderly, place, hplace⟩ := hready
  cases h with
  | expression | printed | returned =>
    rw [Stmt.occurrences] at hplace
    exact ⟨hm, place, hplace⟩
  | @initializer name =>
    obtain ⟨hmirrors, hknown⟩ := hplace
    rw [Stmt.occurrences] at hknown
    exact ⟨hm, _, hmirrors.declare name, hknown⟩
  | @blockBody body span =>
    obtain ⟨hmirrors, hknown⟩ := hplace
    rw [Stmt.Orderly] at horderly
    rw [Stmt.occurrences] at hknown
    refine ⟨⟨hm.store.addFrame _, hm.locals⟩, horderly, place.enter (.block body), ?_, hknown⟩
    exact hmirrors.enter (.block hbegins hmirrors.activation)
  | @condition condition thenBranch elseBranch =>
    cases elseBranch with
    | none =>
      rw [Stmt.occurrences] at hplace
      exact ⟨hm, place, hplace.left⟩
    | some elseBranch =>
      rw [Stmt.occurrences] at hplace
      exact ⟨hm, place, hplace.left.left⟩
  | @thenBranch condition thenBranch elseBranch span _ _ _ hcondition _ =>
    cases elseBranch with
    | none =>
      rw [Stmt.Orderly] at horderly
      rw [Stmt.occurrences] at hplace
      obtain ⟨hm', -, hsteady⟩ :=
        hcarries.evaluated (hclosed.enters hbegins .condition) hm ⟨place, hplace.left⟩ hcondition
      exact ⟨hm', horderly.1, place, hplace.right.steady hsteady⟩
    | some elseBranch =>
      rw [Stmt.Orderly] at horderly
      rw [Stmt.occurrences] at hplace
      obtain ⟨hm', -, hsteady⟩ :=
        hcarries.evaluated (hclosed.enters hbegins .condition) hm ⟨place, hplace.left.left⟩
          hcondition
      exact ⟨hm', horderly.1.1, place, hplace.left.right.steady hsteady⟩
  | elseBranch hcondition _ =>
    rw [Stmt.Orderly] at horderly
    rw [Stmt.occurrences, Stmt.leave_of_not_declaration horderly.1.1 horderly.1.2] at hplace
    obtain ⟨hm', -, hsteady⟩ :=
      hcarries.evaluated (hclosed.enters hbegins .condition) hm ⟨place, hplace.left.left⟩
        hcondition
    exact ⟨hm', horderly.2.1, place, hplace.right.steady hsteady⟩
  | loop =>
    rw [Stmt.Orderly] at horderly
    rw [Stmt.occurrences] at hplace
    exact ⟨hm, horderly, place, hplace⟩

theorem Enters.ready_of_loop {condition : Expr} {body : Stmt}
    (h : Enters n (.loop condition body) m t' m')
    (hbegins : history.begins (n + 1) (.loop condition body) m)
    (hready : Task.Ready history known m (.loop condition body)) :
    m'.Rooted history known ∧ t'.Ready history known m' := by
  obtain ⟨horderly, place, hplace⟩ := hready
  cases h with
  | test =>
    exact ⟨hm, place, hplace.left⟩
  | round hcondition _ =>
    obtain ⟨hm', -, hsteady⟩ :=
      hcarries.evaluated (hclosed.enters hbegins .test) hm ⟨place, hplace.left⟩ hcondition
    exact ⟨hm', horderly.1, place, hplace.right.steady hsteady⟩
  | again hcondition htruthy hbody =>
    obtain ⟨hm₁, -, hsteady₁⟩ :=
      hcarries.evaluated (hclosed.enters hbegins .test) hm ⟨place, hplace.left⟩ hcondition
    obtain ⟨hm₂, hsteady₂⟩ :=
      hcarries.executed (hclosed.enters hbegins (.round hcondition htruthy)) hm₁
        ⟨horderly.1, place, hplace.right.steady hsteady₁⟩ hbody
    exact ⟨hm₂, horderly, place, hplace.steady (hsteady₁.trans hsteady₂)⟩

end

/-- A task that is ready begins only tasks that are ready. -/
theorem Enters.ready {n : Nat} {t t' : Task} (hclosed : history.Closed)
    (hcarries : history.CarriesOut known n) (h : Enters n t m t' m')
    (hbegins : history.begins (n + 1) t m) (hm : m.Rooted history known)
    (hready : t.Ready history known m) :
    m'.Rooted history known ∧ t'.Ready history known m' := by
  cases t with
  | evaluate e => exact h.ready_of_evaluate hclosed hcarries hm hbegins hready
  | execute s => exact h.ready_of_execute hclosed hcarries hm hbegins hready
  | loop condition body => exact h.ready_of_loop hclosed hcarries hm hbegins hready
  | evaluateAll es =>
    cases h with
    | firstValue =>
      obtain ⟨place, hplace⟩ := hready
      rw [Expr.occurrencesAll] at hplace
      exact ⟨hm, place, hplace.left⟩
    | otherValues hfirst =>
      obtain ⟨place, hplace⟩ := hready
      rw [Expr.occurrencesAll] at hplace
      obtain ⟨hm', -, hsteady⟩ :=
        hcarries.evaluated (hclosed.enters hbegins .firstValue) hm ⟨place, hplace.left⟩ hfirst
      exact ⟨hm', place, hplace.right.steady hsteady⟩
  | invoke callee arguments paren =>
    cases h with
    | apply hlength _ =>
      obtain ⟨hf, harguments⟩ := hready
      exact ⟨⟨hm.store, hm.locals⟩, hf, hlength, harguments⟩
  | apply f arguments =>
    cases h with
    | @functionBody f arguments m =>
      obtain ⟨⟨place, hf⟩, hlength, harguments⟩ := hready
      have hframe := (Store.Grows.addFrame m.store (some f.frame))
      refine ⟨⟨?_, hm.locals⟩, hf.orderly.body, FunctionDecl.inside place f.decl, ?_, ?_⟩
      · exact (hm.store.addFrame _).defineAll _ _ fun v hv => (harguments v hv).grow hframe
      · exact (hf.mirrors.enter (.function hbegins hf.made)).defineAll hlength
      · rw [← FunctionDecl.occurrences_eq]
        exact hf.known
  | instantiate callee arguments paren =>
    cases h with
    | make _ _ => exact ⟨⟨hm.store, hm.locals⟩, trivial⟩
  | executeAll ss =>
    cases h with
    | firstStmt =>
      obtain ⟨horderly, place, hplace⟩ := hready
      rw [Stmt.OrderlyAll] at horderly
      rw [Stmt.occurrencesAll] at hplace
      exact ⟨hm, horderly.1, place, hplace.left⟩
    | @otherStmts s ss _ _ hfirst =>
      obtain ⟨horderly, place, hplace⟩ := hready
      rw [Stmt.OrderlyAll] at horderly
      rw [Stmt.occurrencesAll] at hplace
      obtain ⟨hm', -⟩ :=
        hcarries.executed (hclosed.enters hbegins .firstStmt) hm
          ⟨horderly.1, place, hplace.left⟩ hfirst
      exact ⟨hm', horderly.2, s.leave place, hplace.1.execute horderly.1 hfirst,
        hplace.right.2⟩
  | make c => cases h
  | property object name nameSpan => cases h

end Lox
