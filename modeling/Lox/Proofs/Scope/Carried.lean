import Lox.Proofs.Scope.Ready
import Lox.Proofs.Value

/-!
# Code leaves the store rooted

Whatever code is run, and however it ends, the store stays rooted
(`History.carriesOut`).  The proof is by induction on the budget, with one case for each
clause of `Lox.Evaluate`.  The tasks that a task begins are ready by `Enters.ready`, so
that only what the task does itself is left to check.
-/

namespace Lox

open Run

variable {history : History} {known : Occurrence → Prop} {m m' : Machine} {α β : Type}

namespace EndsRooted

theorem of_ok {x : Run α} {answer : Store → α → Prop} {a : α} (h : x m = .ok a m')
    (hstore : m'.store.Rooted history known) (ha : answer m'.store a) :
    EndsRooted history known x m answer := by
  rw [EndsRooted, h]
  exact ⟨hstore, ha⟩

theorem of_error {x : Run α} {answer : Store → α → Prop} {stop : Stop}
    (h : x m = .error stop m') (hstore : m'.store.Rooted history known) :
    EndsRooted history known x m answer := by
  rw [EndsRooted, h]
  exact hstore

theorem pure {a : α} {answer : Store → α → Prop} (hstore : m.store.Rooted history known)
    (ha : answer m.store a) : EndsRooted history known (Pure.pure a) m answer :=
  of_ok (pure_apply a m) hstore ha

theorem fail {fault : RuntimeFault} {span : Span} {answer : Store → α → Prop}
    (hstore : m.store.Rooted history known) :
    EndsRooted history known (Run.fail fault span) m answer :=
  of_error (fail_apply fault span m) hstore

/-- A sequence ends rooted if its first action does, and the second one does from where
the first one ends. -/
theorem bind {x : Run α} {f : α → Run β} {middle : Store → α → Prop}
    {answer : Store → β → Prop} (hx : EndsRooted history known x m middle)
    (hf : ∀ a m₁, x m = .ok a m₁ → m₁.store.Rooted history known → middle m₁.store a →
      EndsRooted history known (f a) m₁ answer) :
    EndsRooted history known (x >>= f) m answer := by
  cases h : x m with
  | ok a m₁ =>
    rw [EndsRooted, h] at hx
    have hrest := hf a m₁ h hx.1 hx.2
    rwa [EndsRooted, bind_of_ok h]
  | error stop m₁ =>
    rw [EndsRooted, h] at hx
    exact of_error (bind_of_error h) hx

theorem get_bind {f : Machine → Run α} {answer : Store → α → Prop}
    (h : EndsRooted history known (f m) m answer) :
    EndsRooted history known (get >>= f) m answer := by
  rw [EndsRooted, bind_of_ok (get_apply m)]
  exact h

theorem inCall {x : Run α} {answer : Store → α → Prop}
    (hx : EndsRooted history known x m.beginCall answer) :
    EndsRooted history known (Run.inCall x) m answer := by
  cases h : x m.beginCall with
  | ok a m₁ =>
    rw [EndsRooted, h] at hx
    exact of_ok (inCall_of_ok h) hx.1 hx.2
  | error stop m₁ =>
    rw [EndsRooted, h] at hx
    exact of_error (inCall_of_error h) hx

end EndsRooted

/-! ## Basic actions -/

theorem endsRooted_check {span : Span} {r : Except RuntimeFault Value}
    (hr : ∀ value, r = .ok value → ∀ f, value ≠ .function f)
    (hstore : m.store.Rooted history known) :
    EndsRooted history known (check span r) m (fun s value => value.Rooted history known s) := by
  cases r with
  | ok value =>
    refine .of_ok (check_ok span value m) hstore ?_
    cases value with
    | function f => exact absurd rfl (hr _ rfl f)
    | _ => trivial
  | error fault => exact .of_error (check_error span fault m) hstore

theorem endsRooted_lookUp {name : String} {node : Node}
    (hstore : m.store.Rooted history known) :
    EndsRooted history known (lookUp name node) m
      (fun s value => value.Rooted history known s) := by
  rw [EndsRooted, lookUp_apply]
  cases hfound : found? m name node with
  | none => exact hstore
  | some value =>
    refine ⟨hstore, ?_⟩
    unfold found? at hfound
    split at hfound
    · unfold Store.getAt? at hfound
      split at hfound
      · cases hfound
      · exact hstore.frames _ name value hfound
    · unfold Store.get? at hfound
      split at hfound
      · cases hfound
      · exact hstore.frames _ name value hfound

theorem endsRooted_assign {name : String} {node : Node} {value : Value}
    (hstore : m.store.Rooted history known) (hvalue : value.Rooted history known m.store) :
    EndsRooted history known (assign name node value) m
      (fun s _ => value.Rooted history known s) := by
  have hassigned : (assigned m name node value).2.Rooted history known := by
    unfold assigned
    split
    · exact hstore.assignAt _ _ name hvalue
    · exact hstore.assign _ name hvalue
  have hgrown := hvalue.grow (grows_assigned m name node value)
  rw [EndsRooted, assign_apply]
  cases (assigned m name node value).1 with
  | true => exact ⟨hassigned, hgrown⟩
  | false => exact hassigned

theorem endsRooted_print {line : String} {span : Span}
    (hstore : m.store.Rooted history known) :
    EndsRooted history known (print line span) m (fun _ _ => True) := by
  rw [EndsRooted, print_apply]
  cases (m.output.print line).1 with
  | true => exact ⟨hstore, trivial⟩
  | false => exact hstore

theorem endsRooted_checkCall {arity count : Nat} {paren : Span}
    (hstore : m.store.Rooted history known) :
    EndsRooted history known (checkCall arity count paren) m (fun _ _ => True) := by
  rw [EndsRooted, checkCall_apply]
  by_cases hcount : count ≠ arity
  · rw [if_pos hcount]
    exact hstore
  · rw [if_neg hcount]
    by_cases hdepth : m.maxCallDepth ≤ m.callDepth
    · rw [if_pos hdepth]
      exact hstore
    · rw [if_neg hdepth]
      exact ⟨hstore, trivial⟩

theorem endsRooted_instantiate {callee : Value} {arguments : List Value} {paren : Span}
    (hstore : m.store.Rooted history known) :
    EndsRooted history known (instantiate callee arguments paren) m
      (fun s value => value.Rooted history known s) := by
  cases callee with
  | «class» c =>
    refine .bind (endsRooted_checkCall hstore) fun _ m₁ _ hstore₁ _ => .inCall ?_
    exact .of_ok rfl (hstore₁.addInstance c) trivial
  | _ => exact .get_bind (.fail hstore)

theorem endsRooted_property {n : Nat} {object : Value} {name : String} {nameSpan : Span}
    (hbegins : history.begins n (.property object name nameSpan) m)
    (hstore : m.store.Rooted history known) :
    EndsRooted history known (property object name nameSpan) m
      (fun s value => value.Rooted history known s) := by
  cases object with
  | «instance» i =>
    obtain ⟨hstore', hvalue⟩ := hstore.property hbegins
    unfold property
    have hread : EndsRooted history known (withStore fun s => s.property i name) m
        (fun s found => ∀ value, found = some value → value.Rooted history known s) :=
      .of_ok (withStore_apply _ m) hstore' hvalue
    refine hread.bind ?_
    intro found m₁ _ hstore₁ hfound
    cases found with
    | some value => exact .pure hstore₁ (hfound value rfl)
    | none => exact .fail hstore₁
  | _ => exact .fail hstore

theorem endsRooted_defineClass {name : String} {methods : List FunctionDecl} {place : Place}
    (hmirrors : Mirrors history m.store place m.current)
    (hknown : ∀ o ∈ FunctionDecl.occurrencesAll ((place.bind name true).insideClass methods)
      methods, known o)
    (horderly : FunctionDecl.OrderlyAll methods)
    (hexecuted : ∃ n span, history.begins (n + 1) (.execute (.class name methods span)) m)
    (hstore : m.store.Rooted history known) :
    EndsRooted history known (defineClass name methods) m (fun _ _ => True) := by
  refine .of_ok (defineClass_apply name methods m) ?_ trivial
  obtain ⟨n, span, hbegins⟩ := hexecuted
  have hnil : (m.store.define m.current name .nil).Rooted history known := by
    refine hstore.define ?_
    trivial
  refine Store.Rooted.define (hnil.addClass _ ?_) trivial
  intro methodName f hf
  obtain ⟨hmem, hframe⟩ := mem_methodTable hf
  refine ⟨methods, place.bind name true, ⟨n, name, span, m, hbegins, hframe⟩, hmem, ?_, hknown,
    horderly⟩
  rw [hframe]
  exact hmirrors.define name .nil

/-! ## Tasks -/

theorem Task.endsRooted_zero {t : Task} (hbegins : history.begins 0 t m)
    (hstore : m.store.Rooted history known) :
    EndsRooted history known (t.run 0) m (t.AnswersRooted history known) := by
  cases t with
  | instantiate callee arguments paren => exact endsRooted_instantiate hstore
  | make c => exact .of_ok rfl (hstore.addInstance c) trivial
  | property object name nameSpan => exact endsRooted_property hbegins hstore
  | _ => exact .of_error rfl hstore

section

variable (history : History) (known : Occurrence → Prop)

/-- All that a task begins with the next smaller budget leaves the store rooted. -/
def Task.BeginsRooted (n : Nat) (t : Task) (m : Machine) : Prop :=
  ∀ {t' : Task} {m' : Machine}, Enters n t m t' m' →
    EndsRooted history known (t'.run n) m' (t'.AnswersRooted history known)

end

theorem endsRooted_evaluate {n : Nat} {e : Expr}
    (hbegun : Task.BeginsRooted history known n (.evaluate e) m)
    (hstore : m.store.Rooted history known) :
    EndsRooted history known (Task.run (n + 1) (.evaluate e)) m
      (Task.AnswersRooted history known · (.evaluate e)) := by
  cases e with
  | literal node value => exact .pure hstore (by cases value <;> trivial)
  | grouping node inner => exact hbegun .inner
  | unary node op operand =>
    refine .bind (hbegun .operand) fun a m₁ _ hstore₁ _ => ?_
    exact endsRooted_check (fun _ h => op.apply_ne_function h) hstore₁
  | binary node op left right opSpan =>
    refine .bind (hbegun .left) fun a m₁ h₁ _ _ => ?_
    refine .bind (hbegun (.right h₁)) fun b m₂ _ hstore₂ _ => ?_
    exact endsRooted_check (fun _ h => op.apply_ne_function h) hstore₂
  | logical node op left right =>
    refine .bind (hbegun .decider) fun a m₁ h₁ hstore₁ ha => ?_
    split
    · exact .pure hstore₁ ha
    · next hdecided => exact hbegun (.undecided h₁ (Bool.eq_false_iff.2 hdecided))
  | «variable» node name => exact endsRooted_lookUp hstore
  | assign node name value =>
    refine .bind (hbegun .assigned) fun v m₁ _ hstore₁ hv => ?_
    exact .bind (endsRooted_assign hstore₁ hv) fun _ _ _ hstore₂ hv₂ => .pure hstore₂ hv₂
  | call node callee arguments paren =>
    refine .bind (hbegun .callee) fun f m₁ h₁ _ _ => ?_
    refine .bind (hbegun (.arguments h₁)) fun values m₂ h₂ _ _ => ?_
    exact hbegun (.invoke h₁ h₂)
  | new node callee arguments paren =>
    refine .bind (hbegun .newCallee) fun c m₁ h₁ _ _ => ?_
    refine .bind (hbegun (.newArguments h₁)) fun values m₂ h₂ _ _ => ?_
    exact hbegun (.instantiate h₁ h₂)
  | get node object name nameSpan =>
    exact .bind (hbegun .object) fun o m₁ h₁ _ _ => hbegun (.property h₁)
  | set node object name nameSpan value =>
    refine .bind (hbegun .target) fun o m₁ h₁ hstore₁ _ => ?_
    cases o with
    | «instance» i =>
      refine .bind (hbegun (.written h₁)) fun v m₂ _ hstore₂ hv => ?_
      exact .of_ok rfl (hstore₂.setField i name hv) (hv.grow (.setField _ _ _ _))
    | _ => exact .fail hstore₁
  | this node => exact endsRooted_lookUp hstore

theorem endsRooted_apply {n : Nat} {f : Closure} {arguments : List Value}
    (hbegun : Task.BeginsRooted history known n (.apply f arguments) m) :
    EndsRooted history known (Task.run (n + 1) (.apply f arguments)) m
      (Task.AnswersRooted history known · (.apply f arguments)) := by
  have henter : Enters n (.apply f arguments) m (.executeAll f.decl.body)
      (m.openBody f arguments) := .functionBody
  have hbody := hbegun henter
  cases h : executeAll n f.decl.body (m.openBody f arguments) with
  | ok flow m₁ =>
    rw [Task.run, EndsRooted, h] at hbody
    refine .of_ok (apply_of_ok h) hbody.1 ?_
    cases flow with
    | normal => trivial
    | «return» value => exact hbody.2
  | error stop m₁ =>
    rw [Task.run, EndsRooted, h] at hbody
    exact .of_error (apply_of_error h) hbody

theorem endsRooted_execute {n : Nat} {s : Stmt}
    (hbegun : Task.BeginsRooted history known n (.execute s) m)
    (hbegins : history.begins (n + 1) (.execute s) m)
    (hready : Task.Ready history known m (.execute s))
    (hstore : m.store.Rooted history known) :
    EndsRooted history known (Task.run (n + 1) (.execute s)) m
      (Task.AnswersRooted history known · (.execute s)) := by
  cases s with
  | expression value span =>
    exact .bind (hbegun .expression) fun _ _ _ hstore₁ _ => .pure hstore₁ trivial
  | print value span =>
    refine .bind (hbegun .printed) fun v m₁ _ hstore₁ _ => .get_bind ?_
    exact .bind (endsRooted_print hstore₁) fun _ _ _ hstore₂ _ => .pure hstore₂ trivial
  | var name initializer span =>
    cases initializer with
    | none =>
      refine .of_ok rfl (hstore.define ?_) trivial
      trivial
    | some initializer =>
      refine .bind (hbegun .initializer) fun v m₁ _ hstore₁ hv => ?_
      exact .of_ok rfl (hstore₁.define (hv.grow (.define _ _ _ _))) trivial
  | block body span =>
    have henter : Enters n (.execute (.block body span)) m (.executeAll body)
        m.openBlock := .blockBody
    have hbody := hbegun henter
    cases h : executeAll n body m.openBlock with
    | ok flow m₁ =>
      rw [Task.run, EndsRooted, h] at hbody
      exact .of_ok (execute_block_of_ok span h) hbody.1 hbody.2
    | error stop m₁ =>
      rw [Task.run, EndsRooted, h] at hbody
      exact .of_error (execute_block_of_error span h) hbody
  | ifElse condition thenBranch elseBranch span =>
    refine .bind (hbegun .condition) fun v m₁ h₁ hstore₁ _ => ?_
    split
    · next htruthy => exact hbegun (.thenBranch h₁ htruthy)
    · next htruthy =>
      cases elseBranch with
      | none => exact .pure hstore₁ trivial
      | some branch => exact hbegun (.elseBranch h₁ (Bool.eq_false_iff.2 htruthy))
  | «while» condition body span => exact hbegun .loop
  | function decl span =>
    obtain ⟨horderly, place, hmirrors, hknown⟩ := hready
    rw [Stmt.Orderly] at horderly
    rw [Stmt.occurrences] at hknown
    refine .of_ok rfl (hstore.define ?_) trivial
    have hmade : Made history place.scopes ⟨decl, m.current⟩ :=
      .function hbegins hmirrors.activation
    rw [← Place.scopes_bind decl.name true] at hmade
    exact ⟨_, hmirrors.define decl.name _, hmade, hknown, horderly.2⟩
  | «class» name methods span =>
    obtain ⟨horderly, place, hmirrors, hknown⟩ := hready
    rw [Stmt.Orderly] at horderly
    rw [Stmt.occurrences] at hknown
    refine .bind (endsRooted_defineClass hmirrors hknown horderly.2 ⟨n, span, hbegins⟩
      hstore) fun _ _ _ hstore₁ _ => .pure hstore₁ trivial
  | «return» value span =>
    cases value with
    | none => exact .pure hstore trivial
    | some value =>
      exact .bind (hbegun .returned) fun v _ _ hstore₁ hv => .pure hstore₁ hv

theorem endsRooted_loop {n : Nat} {condition : Expr} {body : Stmt}
    (hbegun : Task.BeginsRooted history known n (.loop condition body) m) :
    EndsRooted history known (Task.run (n + 1) (.loop condition body)) m
      (Task.AnswersRooted history known · (.loop condition body)) := by
  refine .bind (hbegun .test) fun v m₁ h₁ hstore₁ _ => ?_
  split
  · next htruthy =>
    refine .bind (hbegun (.round h₁ htruthy)) fun flow m₂ h₂ hstore₂ hflow => ?_
    cases flow with
    | normal => exact hbegun (.again h₁ htruthy h₂)
    | «return» value => exact .pure hstore₂ hflow
  · exact .pure hstore₁ trivial

theorem endsRooted_succ {n : Nat} {t : Task}
    (hbegun : t.BeginsRooted history known n m) (hbegins : history.begins (n + 1) t m)
    (hready : t.Ready history known m) (hstore : m.store.Rooted history known) :
    EndsRooted history known (t.run (n + 1)) m (t.AnswersRooted history known) := by
  cases t with
  | evaluate e => exact endsRooted_evaluate hbegun hstore
  | evaluateAll es =>
    cases es with
    | nil => exact .pure hstore (fun value hvalue => by cases hvalue)
    | cons e es =>
      refine .bind (hbegun .firstValue) fun v m₁ h₁ _ hv => ?_
      refine .bind (hbegun (.otherValues h₁)) fun vs m₂ h₂ hstore₂ hvs => .pure hstore₂ ?_
      have hkept : m₁.Steady m₂ := (Task.keeps n (.evaluateAll es)).of_ok h₂
      intro value hvalue
      rcases List.mem_cons.1 hvalue with rfl | hvalue
      · exact hv.grow hkept.store
      · exact hvs value hvalue
  | invoke callee arguments paren =>
    cases callee with
    | function f =>
      refine .bind (endsRooted_checkCall hstore) fun _ m₁ h₁ _ _ => .inCall ?_
      obtain ⟨hcount, hdepth, rfl⟩ := checkCall_eq_ok.1 h₁
      exact hbegun (.apply hcount hdepth)
    | _ => exact .get_bind (.fail hstore)
  | apply f arguments => exact endsRooted_apply hbegun
  | instantiate callee arguments paren => exact endsRooted_instantiate hstore
  | make c => exact .of_ok rfl (hstore.addInstance c) trivial
  | property object name nameSpan => exact endsRooted_property hbegins hstore
  | execute s => exact endsRooted_execute hbegun hbegins hready hstore
  | executeAll ss =>
    cases ss with
    | nil => exact .pure hstore trivial
    | cons s ss =>
      refine .bind (hbegun .firstStmt) fun flow m₁ h₁ hstore₁ hflow => ?_
      cases flow with
      | normal => exact hbegun (.otherStmts h₁)
      | «return» value => exact .pure hstore₁ hflow
  | loop condition body => exact endsRooted_loop hbegun

/-- Every task of a history that is ready leaves the store rooted. -/
theorem History.carriesOut (hclosed : history.Closed) (n : Nat) :
    history.CarriesOut known n := by
  induction n with
  | zero => exact fun t m hbegins hm _ => Task.endsRooted_zero hbegins hm.store
  | succ n ih =>
    intro t m hbegins hm hready
    have hbegun : t.BeginsRooted history known n m := by
      intro t' m' henter
      obtain ⟨hm', hready'⟩ := henter.ready hclosed ih hbegins hm hready
      exact ih t' m' (hclosed.enters hbegins henter) hm' hready'
    exact endsRooted_succ hbegun hbegins hready hm.store

/-- Every task that is begun in the course of a task that is ready is ready, too. -/
theorem Reaches.ready {n k : Nat} {t t' : Task} (hclosed : history.Closed)
    (h : Reaches n t m k t' m') (hbegins : history.begins n t m)
    (hm : m.Rooted history known) (hready : t.Ready history known m) :
    history.begins k t' m' ∧ m'.Rooted history known ∧ t'.Ready history known m' := by
  induction h with
  | refl => exact ⟨hbegins, hm, hready⟩
  | @step k t₁ m₁ t₂ m₂ _ henter ih =>
    obtain ⟨hbegins₁, hm₁, hready₁⟩ := ih
    exact ⟨hclosed _ _ _ _ _ hbegins₁ henter,
      henter.ready hclosed (History.carriesOut hclosed k) hbegins₁ hm₁ hready₁⟩

end Lox
