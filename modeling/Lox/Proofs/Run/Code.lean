import Lox.Proofs.Run.Frames
import Lox.Proofs.Value

/-!
# All that runs is in the code

Function values travel through frames, fields, arguments and returns, but none is ever made
that was not declared or bound.  If the statements that a task is to run belong to some code,
and so do the functions in the store, then the same holds of whatever is begun in its course,
at every moment (`Task.endsFrom`).

**Code.** A `Code` is any set of statements and functions that has the parts of its statements
and the bodies of its functions.  Methods are kept apart from functions, since they become
functions in one way only: when they are bound.  What is asked of a basic action does not
depend on the machine, apart from the making of functions (`Event.Admitted`), and `Plan.From`
asks of a plan what is asked of each of its actions.
-/

namespace Lox

open Run

/-- Statements and functions that may be run, with all their parts. -/
structure Code where
  /-- The statements. -/
  stmt : Stmt → Prop
  /-- The functions that may be called. -/
  closure : Closure → Prop
  /-- The functions that function statements declare. -/
  declared : FunctionDecl → Prop
  /-- The methods, not bound to an instance. -/
  method : FunctionDecl → Prop
  /-- A block has its statements. -/
  block : ∀ {body span}, stmt (.block body span) → ∀ s ∈ body, stmt s
  /-- A condition has its first branch. -/
  thenBranch : ∀ {condition branch other span},
    stmt (.ifElse condition branch other span) → stmt branch
  /-- A condition has its second branch. -/
  elseBranch : ∀ {condition other branch span},
    stmt (.ifElse condition other (some branch) span) → stmt branch
  /-- A loop has its body. -/
  loop : ∀ {condition body span}, stmt (.while condition body span) → stmt body
  /-- A declaration has its function. -/
  function : ∀ {f span}, stmt (.function f span) → declared f
  /-- A class has its methods. -/
  methods : ∀ {name methods span}, stmt (.class name methods span) → ∀ f ∈ methods, method f
  /-- A function has its body. -/
  body : ∀ {f}, closure f → ∀ s ∈ f.decl.body, stmt s

section

variable (code : Code)

/-- If the value is a function, it is from the code. -/
def Value.From (v : Value) : Prop := ∀ f, v = .function f → code.closure f

/-- All functions found in the store are from the code. -/
structure Store.From (s : Store) : Prop where
  /-- What frames bind is from the code. -/
  frames : ∀ e name v, s.getHere? e name = some v → v.From code
  /-- What fields hold is from the code. -/
  fields : ∀ i name v, s.field? i name = some v → v.From code
  /-- Methods are from the code. -/
  methods : ∀ c name f, s.method? c name = some f → code.method f.decl

/-- What a statement returns is from the code. -/
def Flow.From (flow : Flow) : Prop := ∀ v, flow = .return v → v.From code

/-- All that the task may run is from the code. -/
def Task.From : Task → Prop
  | evaluate _ => True
  | evaluateAll _ => True
  | invoke callee arguments _ => callee.From code ∧ ∀ v ∈ arguments, v.From code
  | apply f arguments => code.closure f ∧ ∀ v ∈ arguments, v.From code
  | instantiate .. => True
  | make _ => True
  | property .. => True
  | execute s => code.stmt s
  | executeAll ss => ∀ s ∈ ss, code.stmt s
  | loop condition body => ∃ span, code.stmt (.while condition body span)

/-- What the task answers is from the code. -/
def Task.AnswersFrom : (t : Task) → t.Answer → Prop
  | evaluate _, v => Value.From code v
  | evaluateAll _, vs => ∀ v ∈ vs, Value.From code v
  | invoke .., v => Value.From code v
  | apply .., v => Value.From code v
  | instantiate .., v => Value.From code v
  | make _, v => Value.From code v
  | property .., v => Value.From code v
  | execute _, flow => Flow.From code flow
  | executeAll _, flow => Flow.From code flow
  | loop .., flow => Flow.From code flow

/-- What the basic action puts into the store is from the code. -/
def Act.From : Act → Prop
  | check _ answer => ∀ v, answer = .ok v → v.From code
  | assign _ _ v => v.From code
  | setField _ _ v => v.From code
  | define _ v => v.From code
  | defineFunction f => code.declared f
  | defineClass _ methods => ∀ f ∈ methods, code.method f
  | openBody _ arguments => ∀ v ∈ arguments, v.From code
  | _ => True

/-- What the basic action answers is from the code. -/
def Act.AnswersFrom : (a : Act) → a.Answer → Prop
  | check .., v => Value.From code v
  | lookUp .., v => Value.From code v
  | readProperty .., found => ∀ v, found = some v → Value.From code v
  | addInstance _, v => Value.From code v
  | refuse .., _ => False
  | spent t, a => t.AnswersFrom code a
  | _, _ => True

/-- Each basic action and task of the plan is from the code, if what was answered before is,
and then the answer of the plan has a property. -/
def Plan.From {α : Type} (answer : α → Prop) : Plan α → Prop
  | .answer a => answer a
  | .act a next => a.From code ∧ ∀ b, a.AnswersFrom code b → (next b).From answer
  | .begin _ t next => t.From code ∧ ∀ b, t.AnswersFrom code b → (next b).From answer

/-- A function that is declared, or a method that is bound, when this happens may be
called. -/
def Event.Admitted : Event → Prop
  | begins .. => True
  | acts a m =>
    (∀ f, a = .defineFunction f → code.declared f → code.closure ⟨f, m.current⟩) ∧
    ∀ i name f, a.Reads i name → m.store.findProperty? i name = some (.method f) →
      code.method f.decl → code.closure ⟨f.decl, m.store.frames.size⟩

/-- What happens is from the code, and finds a store that is. -/
def Event.From : Event → Prop
  | begins _ t m => t.From code ∧ m.store.From code
  | acts a m => a.From code ∧ m.store.From code

end

variable {code : Code}

/-! ## The store -/

theorem Value.from_of_ne_function {v : Value} (h : ∀ f, v ≠ .function f) : v.From code :=
  fun f hf => absurd hf (h f)

namespace Store.From

variable {s : Store}

theorem empty : Store.empty.From code where
  frames e name v h := by simp [Store.empty, Store.getHere?] at h
  fields i name v h := by simp [Store.empty, Store.field?] at h
  methods c name f h := by simp [Store.empty, Store.method?] at h

theorem addFrame (h : s.From code) (enclosing : Option FrameId) :
    (s.addFrame enclosing).2.From code where
  frames e name v hv := h.frames e name v (by rwa [Store.getHere?_addFrame] at hv)
  fields := h.fields
  methods := h.methods

theorem define (h : s.From code) (e : FrameId) (name : String) {v : Value}
    (hv : v.From code) : (s.define e name v).From code where
  frames e' name' v' hv' := by
    rw [Store.getHere?_define] at hv'
    split at hv'
    · cases hv'
      exact hv
    · exact h.frames e' name' v' hv'
  fields := h.fields
  methods := h.methods

theorem defineAll (h : s.From code) (e : FrameId) (names : List String) {vs : List Value}
    (hvs : ∀ v ∈ vs, v.From code) : (s.defineAll e names vs).From code := by
  induction names generalizing s vs with
  | nil => exact h
  | cons name names ih =>
    cases vs with
    | nil => exact h
    | cons v vs =>
      exact ih (h.define e name (hvs v (.head _))) fun v' hv' => hvs v' (.tail _ hv')

theorem assigned {m : Machine} (h : m.store.From code) (name : String) (node : Node) {v : Value}
    (hv : v.From code) : (Run.assigned m name node v).2.From code := by
  unfold Run.assigned
  split
  · unfold Store.assignAt
    split
    · exact h
    · exact h.define _ name hv
  · unfold Store.assign
    split
    · exact h
    · exact h.define _ name hv

theorem setField (h : s.From code) (i : InstanceId) (name : String) {v : Value}
    (hv : v.From code) : (s.setField i name v).From code where
  frames := h.frames
  fields i' name' v' hv' := by
    rw [Store.field?_setField] at hv'
    split at hv'
    · cases hv'
      exact hv
    · exact h.fields i' name' v' hv'
  methods := h.methods

theorem addInstance (h : s.From code) (c : ClassId) : (s.addInstance c).2.From code where
  frames := h.frames
  fields i name v hv := h.fields i name v (by rwa [Store.field?_addInstance] at hv)
  methods := h.methods

theorem addClass (h : s.From code) (cls : Class)
    (hcls : ∀ name f, cls.methods.get? name = some f → code.method f.decl) :
    (s.addClass cls).2.From code where
  frames := h.frames
  fields := h.fields
  methods c name f hf := by
    rw [Store.method?_addClass] at hf
    split at hf
    · exact hcls name f hf
    · exact h.methods c name f hf

/-- Reading a property keeps the store from the code, if a method that is bound may be
called. -/
theorem property (h : s.From code) {i : InstanceId} {name : String}
    (hbind : ∀ f, s.findProperty? i name = some (.method f) → code.method f.decl →
      code.closure ⟨f.decl, s.frames.size⟩) :
    (s.property i name).2.From code ∧ ∀ v, (s.property i name).1 = some v → v.From code := by
  unfold Store.property
  split
  · exact ⟨h, fun v hv => by cases hv⟩
  · next value hfind =>
    refine ⟨h, fun v hv => ?_⟩
    cases hv
    exact h.fields i name value (Store.findProperty?_eq_field hfind)
  · next f hfind =>
    obtain ⟨c, hf⟩ := Store.findProperty?_eq_method hfind
    refine ⟨(h.addFrame _).define _ _ (Value.from_of_ne_function (by simp)), fun v hv => ?_⟩
    cases hv
    rintro _ ⟨⟩
    exact hbind f hfind (h.methods c name f hf)

theorem found? {m : Machine} (h : m.store.From code) {name : String} {node : Node} {v : Value}
    (hv : Run.found? m name node = some v) : v.From code := by
  unfold Run.found? at hv
  split at hv
  · unfold Store.getAt? at hv
    split at hv
    · cases hv
    · exact h.frames _ name v hv
  · unfold Store.get? at hv
    split at hv
    · cases hv
    · exact h.frames _ name v hv

end Store.From

/-! ## Basic actions -/

theorem Value.from_ofConstant (c : Constant) : (Value.ofConstant c).From code :=
  Value.from_of_ne_function fun f => by cases c <;> simp [Value.ofConstant]

/-- A basic action that is from the code leaves a store that is. -/
theorem Act.from_store {a : Act} {m : Machine} (h : a.From code)
    (hadmitted : (Event.acts a m).Admitted code) (hstore : m.store.From code) :
    (a.store m).From code := by
  cases a with
  | assign name node v => exact hstore.assigned name node h
  | readProperty i name => exact (hstore.property (hadmitted.2 i name · .now)).1
  | setField i name v => exact hstore.setField i name h
  | addInstance c => exact hstore.addInstance c
  | define name v => exact hstore.define _ name h
  | defineFunction f =>
    refine hstore.define _ f.name ?_
    rintro _ ⟨⟩
    exact hadmitted.1 f rfl h
  | defineClass name methods =>
    have hnil : (Value.nil).From code := Value.from_of_ne_function (by simp)
    refine ((hstore.define m.current name hnil).addClass _ ?_).define _ name
      (Value.from_of_ne_function (by simp))
    intro methodName f hf
    exact h f.decl (mem_methodTable hf).1
  | openBlock => exact hstore.addFrame _
  | openBody f arguments => exact (hstore.addFrame _).defineAll _ _ h
  | spent t =>
    cases t with
    | instantiate callee arguments paren =>
      cases callee with
      | «class» c =>
        rw [store]
        split
        · exact hstore.addInstance c
        · exact hstore
      | _ => exact hstore
    | make c => exact hstore.addInstance c
    | property object name nameSpan =>
      cases object with
      | «instance» i => exact (hstore.property (hadmitted.2 i name · .spent)).1
      | _ => exact hstore
    | _ => exact hstore
  | _ => exact hstore

/-- What a basic action answers is from the code if the action is. -/
theorem Act.from_answer {a : Act} {m m' : Machine} {b : a.Answer} (h : a.From code)
    (hadmitted : (Event.acts a m).Admitted code) (hstore : m.store.From code)
    (hb : a.run m = .ok b m') : a.AnswersFrom code b := by
  cases a with
  | check span answer =>
    cases answer with
    | ok v =>
      cases hb
      exact h v rfl
    | error fault => cases hb
  | lookUp name node =>
    rw [run, lookUp_apply] at hb
    cases hfound : found? m name node with
    | none =>
      rw [hfound] at hb
      cases hb
    | some v =>
      rw [hfound] at hb
      cases hb
      exact hstore.found? hfound
  | refuse fault span => cases hb
  | readProperty i name =>
    cases hb
    exact (hstore.property (hadmitted.2 i name · .now)).2
  | addInstance c =>
    cases hb
    exact Value.from_of_ne_function (by simp)
  | spent t =>
    cases t with
    | instantiate callee arguments paren =>
      cases callee with
      | «class» c =>
        replace hb : Run.instantiate (.class c) arguments paren m = .ok b m' := hb
        rw [instantiate_class_apply] at hb
        split at hb
        · cases hb
        · split at hb
          · cases hb
          · cases hb
            exact Value.from_of_ne_function (by simp)
      | _ => cases hb
    | make c =>
      cases hb
      exact Value.from_of_ne_function (by simp)
    | property object name nameSpan =>
      cases object with
      | «instance» i =>
        replace hb : Run.property (.instance i) name nameSpan m = .ok b m' := hb
        rw [property_instance_apply] at hb
        cases hread : (m.store.property i name).1 with
        | none =>
          rw [hread] at hb
          cases hb
        | some v =>
          rw [hread] at hb
          cases hb
          exact (hstore.property (hadmitted.2 i name · .spent)).2 _ hread
      | _ => cases hb
    | _ => cases hb
  | _ => exact trivial

/-! ## Plans and tasks -/

/-- What is done and begun to evaluate an expression is from the code. -/
theorem Expr.from_plan (e : Expr) :
    (Task.evaluate e).plan.From code ((Task.evaluate e).AnswersFrom code) := by
  cases e with
  | literal node value => exact Value.from_ofConstant value
  | grouping node inner => exact ⟨trivial, fun v hv => hv⟩
  | unary node op operand =>
    refine ⟨trivial, fun v _ => ⟨fun u hu => ?_, fun u hu => hu⟩⟩
    exact Value.from_of_ne_function (op.apply_ne_function hu)
  | binary node op left right opSpan =>
    refine ⟨trivial, fun v _ => ⟨trivial, fun w _ => ⟨fun u hu => ?_, fun u hu => hu⟩⟩⟩
    exact Value.from_of_ne_function (op.apply_ne_function hu)
  | logical node op left right =>
    refine ⟨trivial, fun v hv => ?_⟩
    dsimp only
    split
    · exact hv
    · exact ⟨trivial, fun w hw => hw⟩
  | «variable» node name => exact ⟨trivial, fun v hv => hv⟩
  | assign node name value => exact ⟨trivial, fun v hv => ⟨hv, fun _ _ => hv⟩⟩
  | call node callee arguments paren =>
    exact ⟨trivial, fun f hf => ⟨trivial, fun vs hvs => ⟨⟨hf, hvs⟩, fun v hv => hv⟩⟩⟩
  | new node callee arguments paren =>
    exact ⟨trivial, fun c _ => ⟨trivial, fun vs _ => ⟨trivial, fun v hv => hv⟩⟩⟩
  | get node object name nameSpan =>
    exact ⟨trivial, fun o _ => ⟨trivial, fun v hv => hv⟩⟩
  | set node object name nameSpan value =>
    refine ⟨trivial, fun o _ => ?_⟩
    cases o with
    | «instance» i => exact ⟨trivial, fun v hv => ⟨hv, fun _ _ => hv⟩⟩
    | _ => exact ⟨trivial, fun _ hv => hv.elim⟩
  | this node => exact ⟨trivial, fun v hv => hv⟩

/-- What is done and begun to execute a statement is from the code if the statement is. -/
theorem Stmt.from_plan {s : Stmt} (h : code.stmt s) :
    (Task.execute s).plan.From code ((Task.execute s).AnswersFrom code) := by
  have hnormal : Flow.normal.From code := fun v hv => by cases hv
  have hnil : (Value.nil).From code := Value.from_of_ne_function (by simp)
  cases s with
  | expression value span => exact ⟨trivial, fun _ _ => hnormal⟩
  | print value span => exact ⟨trivial, fun _ _ => ⟨trivial, fun _ _ => hnormal⟩⟩
  | var name initializer span =>
    cases initializer with
    | none => exact ⟨hnil, fun _ _ => hnormal⟩
    | some initializer => exact ⟨trivial, fun v hv => ⟨hv, fun _ _ => hnormal⟩⟩
  | block body span => exact ⟨trivial, fun _ _ => ⟨code.block h, fun flow hflow => hflow⟩⟩
  | ifElse condition thenBranch elseBranch span =>
    refine ⟨trivial, fun v _ => ?_⟩
    dsimp only
    split
    · exact ⟨code.thenBranch h, fun flow hflow => hflow⟩
    · cases elseBranch with
      | none => exact hnormal
      | some branch => exact ⟨code.elseBranch h, fun flow hflow => hflow⟩
  | «while» condition body span => exact ⟨⟨span, h⟩, fun flow hflow => hflow⟩
  | function f span => exact ⟨code.function h, fun _ _ => hnormal⟩
  | «class» name methods span => exact ⟨code.methods h, fun _ _ => hnormal⟩
  | «return» value span =>
    cases value with
    | none =>
      rintro _ ⟨⟩
      exact hnil
    | some value =>
      refine ⟨trivial, fun v hv => ?_⟩
      rintro _ ⟨⟩
      exact hv

/-- What a task does and begins is from the code if the task is. -/
theorem Task.from_plan {t : Task} (h : t.From code) :
    t.plan.From code (t.AnswersFrom code) := by
  cases t with
  | evaluate e => exact e.from_plan
  | evaluateAll es =>
    cases es with
    | nil => exact fun v hv => by cases hv
    | cons e es =>
      exact ⟨trivial, fun v hv => ⟨trivial, fun vs hvs => List.forall_mem_cons.2 ⟨hv, hvs⟩⟩⟩
  | invoke callee arguments paren =>
    cases callee with
    | function f => exact ⟨trivial, fun _ _ => ⟨⟨h.1 f rfl, h.2⟩, fun v hv => hv⟩⟩
    | _ => exact ⟨trivial, fun _ hv => hv.elim⟩
  | apply f arguments =>
    refine ⟨h.2, fun frame _ => ⟨code.body h.1, fun flow hflow => ?_⟩⟩
    cases flow with
    | normal => exact Value.from_of_ne_function (by simp [Flow.answer])
    | «return» v => exact hflow v rfl
  | instantiate callee arguments paren =>
    cases callee with
    | «class» c => exact ⟨trivial, fun _ _ => ⟨trivial, fun v hv => hv⟩⟩
    | _ => exact ⟨trivial, fun _ hv => hv.elim⟩
  | make c => exact ⟨trivial, fun v hv => hv⟩
  | property object name nameSpan =>
    cases object with
    | «instance» i =>
      refine ⟨trivial, fun found hfound => ?_⟩
      cases found with
      | some v => exact hfound v rfl
      | none => exact ⟨trivial, fun _ hv => hv.elim⟩
    | _ => exact ⟨trivial, fun _ hv => hv.elim⟩
  | execute s => exact Stmt.from_plan h
  | executeAll ss =>
    cases ss with
    | nil => exact fun v hv => by cases hv
    | cons s ss =>
      refine ⟨h s (.head _), fun flow hflow => ?_⟩
      cases flow with
      | normal => exact ⟨fun s' hs' => h s' (.tail _ hs'), fun flow hflow => hflow⟩
      | «return» v => exact hflow
  | loop condition body =>
    obtain ⟨span, h⟩ := h
    refine ⟨trivial, fun v _ => ?_⟩
    dsimp only
    split
    · refine ⟨code.loop h, fun flow hflow => ?_⟩
      cases flow with
      | normal => exact ⟨⟨span, h⟩, fun flow hflow => hflow⟩
      | «return» v => exact hflow
    · exact fun v hv => by cases hv

/-- How an action goes that is from the code: what happens in its course, the store that it
leaves, and its answer. -/
structure EndsFrom (code : Code) {α : Type} (answer : α → Prop) (x : Run α) (es : List Event)
    (m : Machine) : Prop where
  /-- What happens is from the code. -/
  course : ∀ e ∈ es, e.From code
  /-- The store that is left is from the code. -/
  store : (endState x m).store.From code
  /-- The answer has the property. -/
  answer : ∀ a m', x m = .ok a m' → answer a

theorem Plan.endsFrom {n : Nat} {α : Type} {answer : α → Prop}
    (htasks : ∀ (t : Task) (m : Machine), t.From code → m.store.From code →
      (∀ e ∈ t.course n m, e.Admitted code) →
      EndsFrom code (t.AnswersFrom code) (t.run n) (t.course n m) m)
    {p : Plan α} {m : Machine} (h : p.From code answer) (hstore : m.store.From code)
    (hadmitted : ∀ e ∈ p.course n (fun t m => t.course n m) m, e.Admitted code) :
    EndsFrom code answer (p.run n) (p.course n (fun t m => t.course n m) m) m := by
  induction p generalizing m with
  | answer a =>
    refine ⟨by simp [Plan.course], hstore, fun b m' hb => ?_⟩
    cases hb
    exact h
  | act a next ih =>
    obtain ⟨hact, hnext⟩ := h
    obtain ⟨hnow, hlater⟩ := List.forall_mem_cons.1 hadmitted
    have hleft := Act.from_store hact hnow hstore
    rw [← a.endState_store] at hleft
    have hevent : (Event.acts a m).From code := ⟨hact, hstore⟩
    cases hrun : a.run m with
    | ok b m₁ =>
      rw [endState_of_ok hrun] at hleft
      rw [follow_of_ok hrun] at hlater
      have hrest := ih b (hnext b (Act.from_answer hact hnow hstore hrun)) hleft hlater
      refine ⟨?_, ?_, fun c m' hc => hrest.answer c m' ?_⟩
      · rw [Plan.course, follow_of_ok hrun]
        exact List.forall_mem_cons.2 ⟨hevent, hrest.course⟩
      · rw [Plan.run, endState_bind_of_ok hrun]
        exact hrest.store
      · rwa [Plan.run, bind_of_ok hrun] at hc
    | error stop m₁ =>
      rw [endState_of_error hrun] at hleft
      refine ⟨?_, ?_, fun c m' hc => ?_⟩
      · rw [Plan.course, follow_of_error hrun]
        exact List.forall_mem_cons.2 ⟨hevent, by simp⟩
      · rwa [Plan.run, endState_bind_of_error hrun]
      · rw [Plan.run, bind_of_error hrun] at hc
        cases hc
  | begin s t next ih =>
    obtain ⟨htask, hnext⟩ := h
    obtain ⟨hnow, hlater⟩ := List.forall_mem_append.1 hadmitted
    have hfirst := htasks t (s.enter m) htask (by simpa using hstore) hnow
    have hleft : (endState (s.run (t.run n)) m).store.From code := by
      rw [show (endState (s.run (t.run n)) m).store = _ from
        congrArg Prod.fst (s.world_endState (t.run n) m)]
      exact hfirst.store
    cases hrun : s.run (t.run n) m with
    | ok b m₁ =>
      obtain ⟨m₂, hb, -⟩ := Setting.run_eq_ok.1 hrun
      rw [endState_of_ok hrun] at hleft
      rw [follow_of_ok hrun] at hlater
      have hrest := ih b (hnext b (hfirst.answer b m₂ hb)) hleft hlater
      refine ⟨?_, ?_, fun c m' hc => hrest.answer c m' ?_⟩
      · rw [Plan.course, follow_of_ok hrun]
        exact List.forall_mem_append.2 ⟨hfirst.course, hrest.course⟩
      · rw [Plan.run, endState_bind_of_ok hrun]
        exact hrest.store
      · rwa [Plan.run, bind_of_ok hrun] at hc
    | error stop m₁ =>
      rw [endState_of_error hrun] at hleft
      refine ⟨?_, ?_, fun c m' hc => ?_⟩
      · rw [Plan.course, follow_of_error hrun, List.append_nil]
        exact hfirst.course
      · rwa [Plan.run, endState_bind_of_error hrun]
      · rw [Plan.run, bind_of_error hrun] at hc
        cases hc

/-- Of a task that is from the code, all that happens in its course is from the code. -/
theorem Task.endsFrom (n : Nat) {t : Task} {m : Machine} (h : t.From code)
    (hstore : m.store.From code) (hadmitted : ∀ e ∈ t.course n m, e.Admitted code) :
    EndsFrom code (t.AnswersFrom code) (t.run n) (t.course n m) m := by
  induction n generalizing t m with
  | zero =>
    have hnow : (Event.acts (.spent t) m).Admitted code := hadmitted _ (.tail _ (.head _))
    have hspent : (Act.spent t).From code := trivial
    have hleft := Act.from_store hspent hnow hstore
    rw [← Act.endState_store] at hleft
    refine ⟨?_, hleft, fun b m' hb => Act.from_answer hspent hnow hstore hb⟩
    rw [course]
    have hfirst : (Event.begins 0 t m).From code := ⟨h, hstore⟩
    have hsecond : (Event.acts (.spent t) m).From code := ⟨hspent, hstore⟩
    exact List.forall_mem_cons.2 ⟨hfirst, List.forall_mem_cons.2 ⟨hsecond, by simp⟩⟩
  | succ n ih =>
    obtain ⟨hcourse, hleft, hanswer⟩ := Plan.endsFrom (fun t m => ih) (from_plan h) hstore
      (List.forall_mem_cons.1 hadmitted).2
    rw [← run_succ] at hleft hanswer
    refine ⟨?_, hleft, hanswer⟩
    rw [course]
    have hfirst : (Event.begins (n + 1) t m).From code := ⟨h, hstore⟩
    exact List.forall_mem_cons.2 ⟨hfirst, hcourse⟩

/-! ## Programs -/

theorem Plan.from_statements {ss : List Stmt} (h : ∀ s ∈ ss, code.stmt s) :
    (Plan.statements ss).From code (fun _ => True) := by
  induction ss with
  | nil => trivial
  | cons s ss ih => exact ⟨h s (.head _), fun _ _ => ih fun s' hs' => h s' (.tail _ hs')⟩

/-- Of a program that is from the code, all that happens in its course is from the code, and
so is the store that it leaves. -/
theorem Compiled.endsFrom {budget : Nat} {c : Compiled} {m : Machine}
    (h : ∀ s ∈ c.program.statements, code.stmt s) (hstore : m.store.From code)
    (hadmitted : ∀ e ∈ c.course budget m, e.Admitted code) :
    (∀ e ∈ c.course budget m, e.From code) ∧
      (Session.runCompiled budget m c).2.store.From code := by
  have hends := Plan.endsFrom (m := m.learn c.locals) (fun _ _ => Task.endsFrom budget)
    (Plan.from_statements h) hstore hadmitted
  rw [runCompiled_snd, ← Plan.run_statements]
  exact ⟨hends.course, hends.store⟩

/-- If all programs of a session are from the code, all that happens in its course is from the
code. -/
theorem Session.from_course {budget : Nat} {session : Session} {sources : List String}
    (h : ∀ c m, session.Runs budget sources c m → ∀ s ∈ c.program.statements, code.stmt s)
    (hstore : session.machine.store.From code)
    (hadmitted : ∀ e ∈ session.course budget sources, e.Admitted code) :
    ∀ e ∈ session.course budget sources, e.From code := by
  induction sources generalizing session with
  | nil => exact fun e he => by cases he
  | cons source sources ih =>
    rw [course] at hadmitted ⊢
    obtain ⟨hfirst, hlater⟩ := List.forall_mem_append.1 hadmitted
    have hothers : ∀ c m, (session.step budget source).2.Runs budget sources c m →
        ∀ s ∈ c.program.statements, code.stmt s :=
      fun c m hruns => h c m (runs_cons.2 (.inr hruns))
    cases hcompile : (compile session.supply source).result with
    | error errors =>
      rw [step_of_error hcompile] at hothers hlater ⊢
      simpa [hcompile] using ih hothers hstore hlater
    | ok c =>
      rw [hcompile] at hfirst
      obtain ⟨hcourse, hleft⟩ :=
        Compiled.endsFrom (h c _ (runs_cons.2 (.inl ⟨hcompile, rfl⟩))) hstore hfirst
      rw [step_of_ok hcompile] at hothers hlater ⊢
      exact List.forall_mem_append.2 ⟨hcourse, ih hothers hleft hlater⟩

end Lox
