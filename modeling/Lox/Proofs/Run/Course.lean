import Lox.Proofs.Run.Moment
import Lox.Proofs.Run.Plan

/-!
# The course of a run

The course of a run lists all that happens in it, in order: which tasks are begun and which
basic actions are done, each with the machine at this moment.  Whether something happens
before something else, or after it, or last of all, is said with it.

**Moments.** The tasks that are begun in the course of a task are those that it reaches
(`Task.begins_mem_course`).

**Order.** Store and output change with basic actions only: each event finds them as the
event before it has left them (`Task.traces_course`).
-/

namespace Lox

open Run Plan

/-- Something that happens in the course of a run. -/
inductive Event where
  /-- A task is begun with a budget. -/
  | begins (n : Nat) (t : Task) (m : Machine)
  /-- A basic action is done. -/
  | acts (a : Act) (m : Machine)

namespace Event

/-- The machine on which it happens. -/
def machine : Event → Machine
  | begins _ _ m => m
  | acts _ m => m

/-- The machine just after. -/
def after : Event → Machine
  | begins _ _ m => m
  | acts a m => endState a.run m

end Event

/-- What follows an action, if it answers. -/
def Run.follow {α β : Type} (x : Run α) (m : Machine) (next : α → Machine → List β) : List β :=
  match x m with
  | .ok a m' => next a m'
  | .error _ _ => []

/-- The course of a plan, if `inner` gives the courses of the tasks that it begins. -/
def Plan.course {α : Type} (n : Nat) (inner : Task → Machine → List Event) :
    Plan α → Machine → List Event
  | answer _, _ => []
  | act a next, m => .acts a m :: follow a.run m fun b m => (next b).course n inner m
  | begin s t next, m =>
    inner t (s.enter m) ++ follow (s.run (t.run n)) m fun b m => (next b).course n inner m

/-- The course of a task. -/
def Task.course : Nat → Task → Machine → List Event
  | 0, t, m => [.begins 0 t m, .acts (.spent t) m]
  | n + 1, t, m => .begins (n + 1) t m :: t.plan.course n (fun t' m' => t'.course n m') m

section

variable {α β : Type} {m m' : Machine}

@[simp] theorem follow_of_ok {x : Run α} {a : α} {next : α → Machine → List β}
    (h : x m = .ok a m') : follow x m next = next a m' := by
  simp [follow, h]

@[simp] theorem follow_of_error {x : Run α} {stop : Stop} {next : α → Machine → List β}
    (h : x m = .error stop m') : follow x m next = [] := by
  simp [follow, h]

theorem mem_follow {x : Run α} {next : α → Machine → List β} {b : β} :
    b ∈ follow x m next ↔ ∃ a m', x m = .ok a m' ∧ b ∈ next a m' := by
  unfold follow
  cases x m with
  | ok a m' => simp [and_assoc]
  | error stop m' => simp

end

/-! ## What a plan begins and does -/

/-- Carrying out a plan begins a task. -/
inductive Plan.Begins (n : Nat) {α : Type} : Plan α → Machine → Task → Machine → Prop
  | now {s t next m} : Begins n (.begin s t next) m t (s.enter m)
  | act {a next m b m₁ t' m'} :
      a.run m = .ok b m₁ → Begins n (next b) m₁ t' m' → Begins n (.act a next) m t' m'
  | later {s t next m b m₁ t' m'} :
      s.run (t.run n) m = .ok b m₁ → Begins n (next b) m₁ t' m' →
      Begins n (.begin s t next) m t' m'

/-- Carrying out a plan does a basic action. -/
inductive Plan.Does (n : Nat) {α : Type} : Plan α → Machine → Act → Machine → Prop
  | now {a next m} : Does n (.act a next) m a m
  | act {a next m b m₁ a' m'} :
      a.run m = .ok b m₁ → Does n (next b) m₁ a' m' → Does n (.act a next) m a' m'
  | later {s t next m b m₁ a' m'} :
      s.run (t.run n) m = .ok b m₁ → Does n (next b) m₁ a' m' →
      Does n (.begin s t next) m a' m'

namespace Plan

variable {n : Nat} {α : Type} {m m' : Machine} {t' : Task} {a' : Act}

@[simp] theorem begins_answer {a : α} : ¬ (answer a).Begins n m t' m' := fun h => by cases h

@[simp] theorem begins_act {a : Act} {next : a.Answer → Plan α} :
    (act a next).Begins n m t' m' ↔
      ∃ b m₁, a.run m = .ok b m₁ ∧ (next b).Begins n m₁ t' m' := by
  constructor
  · rintro (_ | ⟨hrun, h⟩)
    exact ⟨_, _, hrun, h⟩
  · rintro ⟨b, m₁, hrun, h⟩
    exact .act hrun h

@[simp] theorem begins_begin {s : Setting} {t : Task} {next : t.Answer → Plan α} :
    (begin s t next).Begins n m t' m' ↔
      (t' = t ∧ m' = s.enter m) ∨
      ∃ b m₁, s.run (t.run n) m = .ok b m₁ ∧ (next b).Begins n m₁ t' m' := by
  constructor
  · rintro (_ | _ | ⟨hrun, h⟩)
    · exact .inl ⟨rfl, rfl⟩
    · exact .inr ⟨_, _, hrun, h⟩
  · rintro (⟨rfl, rfl⟩ | ⟨b, m₁, hrun, h⟩)
    · exact .now
    · exact .later hrun h

@[simp] theorem does_answer {a : α} : ¬ (answer a).Does n m a' m' := fun h => by cases h

@[simp] theorem does_act {a : Act} {next : a.Answer → Plan α} :
    (act a next).Does n m a' m' ↔
      (a' = a ∧ m' = m) ∨ ∃ b m₁, a.run m = .ok b m₁ ∧ (next b).Does n m₁ a' m' := by
  constructor
  · rintro (_ | ⟨hrun, h⟩)
    · exact .inl ⟨rfl, rfl⟩
    · exact .inr ⟨_, _, hrun, h⟩
  · rintro (⟨rfl, rfl⟩ | ⟨b, m₁, hrun, h⟩)
    · exact .now
    · exact .act hrun h

/-- An action that ends a plan is the only one that it does. -/
theorem does_last {a : Act} {f : a.Answer → α} :
    (act a fun b => answer (f b)).Does n m a' m' ↔ a' = a ∧ m' = m := by
  simp

@[simp] theorem does_begin {s : Setting} {t : Task} {next : t.Answer → Plan α} :
    (begin s t next).Does n m a' m' ↔
      ∃ b m₁, s.run (t.run n) m = .ok b m₁ ∧ (next b).Does n m₁ a' m' := by
  constructor
  · rintro (_ | _ | ⟨hrun, h⟩)
    exact ⟨_, _, hrun, h⟩
  · rintro ⟨b, m₁, hrun, h⟩
    exact .later hrun h

end Plan

/-- The course of a plan has what it does and the courses of what it begins. -/
theorem Plan.mem_course {n : Nat} {α : Type} {inner : Task → Machine → List Event}
    {p : Plan α} {m : Machine} {e : Event} :
    e ∈ p.course n inner m ↔
      (∃ a m', p.Does n m a m' ∧ e = .acts a m') ∨
      ∃ t m', p.Begins n m t m' ∧ e ∈ inner t m' := by
  induction p generalizing m with
  | answer a => simp [Plan.course]
  | act a next ih =>
    rw [Plan.course, List.mem_cons, mem_follow]
    simp only [ih, does_act, begins_act]
    constructor
    · rintro (rfl | ⟨b, m₁, hrun, ⟨a', m', h, rfl⟩ | ⟨t, m', h, he⟩⟩)
      · exact .inl ⟨a, m, .inl ⟨rfl, rfl⟩, rfl⟩
      · exact .inl ⟨a', m', .inr ⟨b, m₁, hrun, h⟩, rfl⟩
      · exact .inr ⟨t, m', ⟨b, m₁, hrun, h⟩, he⟩
    · rintro (⟨a', m', ⟨rfl, rfl⟩ | ⟨b, m₁, hrun, h⟩, rfl⟩ | ⟨t, m', ⟨b, m₁, hrun, h⟩, he⟩)
      · exact .inl rfl
      · exact .inr ⟨b, m₁, hrun, .inl ⟨a', m', h, rfl⟩⟩
      · exact .inr ⟨b, m₁, hrun, .inr ⟨t, m', h, he⟩⟩
  | begin s t next ih =>
    rw [Plan.course, List.mem_append, mem_follow]
    simp only [ih, does_begin, begins_begin]
    constructor
    · rintro (he | ⟨b, m₁, hrun, ⟨a', m', h, rfl⟩ | ⟨t', m', h, he⟩⟩)
      · exact .inr ⟨t, s.enter m, .inl ⟨rfl, rfl⟩, he⟩
      · exact .inl ⟨a', m', ⟨b, m₁, hrun, h⟩, rfl⟩
      · exact .inr ⟨t', m', .inr ⟨b, m₁, hrun, h⟩, he⟩
    · rintro (⟨a', m', ⟨b, m₁, hrun, h⟩, rfl⟩ | ⟨t', m', ⟨rfl, rfl⟩ | ⟨b, m₁, hrun, h⟩, he⟩)
      · exact .inr ⟨b, m₁, hrun, .inl ⟨a', m', h, rfl⟩⟩
      · exact .inl he
      · exact .inr ⟨b, m₁, hrun, .inr ⟨t', m', h, he⟩⟩

/-! ## Moments of a course -/

section

variable {n : Nat} {m m' : Machine} {t t' : Task}

/-- What a task begins stands in its plan. -/
theorem Enters.begins (h : Enters n t m t' m') : t.plan.Begins n m t' m' := by
  cases h with
  | right h | arguments h | newArguments h | property h | otherValues h | otherStmts h
  | written h => exact .later h .now
  | invoke h₁ h₂ | instantiate h₁ h₂ => exact .later h₁ (.later h₂ .now)
  | @undecided node op left right m a m' h hd =>
    refine .later h ?_
    rw [if_neg (Bool.eq_false_iff.1 hd)]
    exact .now
  | apply harity hdepth | make harity hdepth =>
    exact .act (checkCall_eq_ok.2 ⟨harity, hdepth, rfl⟩) .now
  | functionBody => exact .act rfl .now
  | blockBody => exact .act rfl .now
  | thenBranch h hv =>
    refine .later h ?_
    rw [if_pos hv]
    exact .now
  | elseBranch h hv =>
    refine .later h ?_
    rw [if_neg (Bool.eq_false_iff.1 hv)]
    exact .now
  | round h hv =>
    refine .later h ?_
    rw [if_pos hv]
    exact .now
  | again h hv hbody =>
    refine .later h ?_
    rw [if_pos hv]
    exact .later hbody .now
  | _ => exact .now

theorem Enters.of_evaluate {e : Expr} (h : (Task.evaluate e).plan.Begins n m t' m') :
    Enters n (.evaluate e) m t' m' := by
  cases e with
  | literal node value | «variable» node name | this node => simp [Task.plan] at h
  | grouping node inner =>
    obtain ⟨rfl, rfl⟩ : t' = .evaluate inner ∧ _ := by simpa [Task.plan] using h
    exact .inner
  | unary node op operand =>
    obtain ⟨rfl, rfl⟩ : t' = .evaluate operand ∧ _ := by simpa [Task.plan] using h
    exact .operand
  | binary node op left right opSpan =>
    simp only [Task.plan, begins_begin, begins_act, begins_answer] at h
    obtain ⟨rfl, rfl⟩ | ⟨a, m₁, h₁, ⟨rfl, rfl⟩ | ⟨b, m₂, -, _, _, -, hlast⟩⟩ := h
    · exact .left
    · exact .right h₁
    · exact hlast.elim
  | logical node op left right =>
    simp only [Task.plan, begins_begin] at h
    obtain ⟨rfl, rfl⟩ | ⟨a, m₁, h₁, h₂⟩ := h
    · exact .decider
    · by_cases hd : op.isDecidedBy a
      · simp [hd] at h₂
      · obtain ⟨rfl, rfl⟩ : t' = .evaluate right ∧ _ := by simpa [hd] using h₂
        exact .undecided h₁ (Bool.eq_false_iff.2 hd)
  | assign node name value =>
    obtain ⟨rfl, rfl⟩ : t' = .evaluate value ∧ _ := by simpa [Task.plan] using h
    exact .assigned
  | call node callee arguments paren =>
    simp only [Task.plan, begins_begin] at h
    obtain ⟨rfl, rfl⟩ | ⟨f, m₁, h₁, ⟨rfl, rfl⟩ | ⟨values, m₂, h₂, h₃⟩⟩ := h
    · exact .callee
    · exact .arguments h₁
    · obtain ⟨rfl, rfl⟩ : t' = .invoke f values paren ∧ _ := by simpa using h₃
      exact .invoke h₁ h₂
  | new node callee arguments paren =>
    simp only [Task.plan, begins_begin] at h
    obtain ⟨rfl, rfl⟩ | ⟨c, m₁, h₁, ⟨rfl, rfl⟩ | ⟨values, m₂, h₂, h₃⟩⟩ := h
    · exact .newCallee
    · exact .newArguments h₁
    · obtain ⟨rfl, rfl⟩ : t' = .instantiate c values paren ∧ _ := by simpa using h₃
      exact .instantiate h₁ h₂
  | get node object name nameSpan =>
    simp only [Task.plan, begins_begin] at h
    obtain ⟨rfl, rfl⟩ | ⟨o, m₁, h₁, h₂⟩ := h
    · exact .object
    · obtain ⟨rfl, rfl⟩ : t' = .property o name nameSpan ∧ _ := by simpa using h₂
      exact .property h₁
  | set node object name nameSpan value =>
    simp only [Task.plan, begins_begin] at h
    obtain ⟨rfl, rfl⟩ | ⟨o, m₁, h₁, h₂⟩ := h
    · exact .target
    · cases o with
      | «instance» i =>
        obtain ⟨rfl, rfl⟩ : t' = .evaluate value ∧ _ := by simpa using h₂
        exact .written h₁
      | _ => simp at h₂

theorem Enters.of_execute {s : Stmt} (h : (Task.execute s).plan.Begins n m t' m') :
    Enters n (.execute s) m t' m' := by
  cases s with
  | expression value span =>
    obtain ⟨rfl, rfl⟩ : t' = .evaluate value ∧ _ := by simpa [Task.plan] using h
    exact .expression
  | print value span =>
    obtain ⟨rfl, rfl⟩ : t' = .evaluate value ∧ _ := by simpa [Task.plan] using h
    exact .printed
  | var name initializer span =>
    cases initializer with
    | none => simp [Task.plan] at h
    | some initializer =>
      obtain ⟨rfl, rfl⟩ : t' = .evaluate initializer ∧ _ := by
        simpa [Task.plan] using h
      exact .initializer
  | block body span =>
    simp only [Task.plan, begins_act] at h
    obtain ⟨frame, m₁, h₁, h₂⟩ := h
    obtain ⟨rfl, rfl⟩ : t' = .executeAll body ∧ _ := by simpa using h₂
    cases h₁
    exact .blockBody
  | ifElse condition thenBranch elseBranch span =>
    simp only [Task.plan, begins_begin] at h
    obtain ⟨rfl, rfl⟩ | ⟨v, m₁, h₁, h₂⟩ := h
    · exact .condition
    · by_cases hv : v.isTruthy
      · obtain ⟨rfl, rfl⟩ : t' = .execute thenBranch ∧ _ := by simpa [hv] using h₂
        exact .thenBranch h₁ hv
      · cases elseBranch with
        | none => simp [hv] at h₂
        | some branch =>
          obtain ⟨rfl, rfl⟩ : t' = .execute branch ∧ _ := by simpa [hv] using h₂
          exact .elseBranch h₁ (Bool.eq_false_iff.2 hv)
  | «while» condition body span =>
    obtain ⟨rfl, rfl⟩ : t' = .loop condition body ∧ _ := by simpa [Task.plan] using h
    exact .loop
  | function decl span | «class» name methods span => simp [Task.plan] at h
  | «return» value span =>
    cases value with
    | none => simp [Task.plan] at h
    | some value =>
      obtain ⟨rfl, rfl⟩ : t' = .evaluate value ∧ _ := by simpa [Task.plan] using h
      exact .returned

theorem Enters.of_loop {condition : Expr} {body : Stmt}
    (h : (Task.loop condition body).plan.Begins n m t' m') :
    Enters n (.loop condition body) m t' m' := by
  simp only [Task.plan, begins_begin] at h
  obtain ⟨rfl, rfl⟩ | ⟨v, m₁, h₁, h₂⟩ := h
  · exact .test
  · by_cases hv : v.isTruthy
    · simp only [hv, if_true, begins_begin] at h₂
      obtain ⟨rfl, rfl⟩ | ⟨flow, m₂, h₂, h₃⟩ := h₂
      · exact .round h₁ hv
      · cases flow with
        | normal =>
          obtain ⟨rfl, rfl⟩ : t' = .loop condition body ∧ _ := by simpa using h₃
          exact .again h₁ hv h₂
        | «return» value => simp at h₃
    · simp [hv] at h₂

/-- A task begins what its plan begins. -/
theorem enters_iff : Enters n t m t' m' ↔ t.plan.Begins n m t' m' := by
  refine ⟨Enters.begins, fun h => ?_⟩
  cases t with
  | evaluate e => exact .of_evaluate h
  | evaluateAll es =>
    cases es with
    | nil => simp [Task.plan] at h
    | cons e es =>
      simp only [Task.plan, begins_begin] at h
      obtain ⟨rfl, rfl⟩ | ⟨v, m₁, h₁, h₂⟩ := h
      · exact .firstValue
      · obtain ⟨rfl, rfl⟩ : t' = .evaluateAll es ∧ _ := by simpa using h₂
        exact .otherValues h₁
  | invoke callee arguments paren =>
    cases callee with
    | function f =>
      simp only [Task.plan, begins_act] at h
      obtain ⟨_, m₁, h₁, h₂⟩ := h
      obtain ⟨harity, hdepth, rfl⟩ := checkCall_eq_ok.1 h₁
      obtain ⟨rfl, rfl⟩ : t' = .apply f arguments ∧ _ := by simpa using h₂
      exact .apply harity hdepth
    | _ => simp [Task.plan] at h
  | apply f arguments =>
    simp only [Task.plan, begins_act] at h
    obtain ⟨frame, m₁, h₁, h₂⟩ := h
    obtain ⟨rfl, rfl⟩ : t' = .executeAll f.decl.body ∧ _ := by simpa using h₂
    cases h₁
    exact .functionBody
  | instantiate callee arguments paren =>
    cases callee with
    | «class» c =>
      simp only [Task.plan, begins_act] at h
      obtain ⟨_, m₁, h₁, h₂⟩ := h
      obtain ⟨harity, hdepth, rfl⟩ := checkCall_eq_ok.1 h₁
      obtain ⟨rfl, rfl⟩ : t' = .make c ∧ _ := by simpa using h₂
      exact .make harity hdepth
    | _ => simp [Task.plan] at h
  | make c => simp [Task.plan] at h
  | property object name nameSpan =>
    cases object with
    | «instance» i =>
      simp only [Task.plan, begins_act] at h
      obtain ⟨found, m₁, -, h₂⟩ := h
      cases found <;> simp at h₂
    | _ => simp [Task.plan] at h
  | execute s => exact .of_execute h
  | executeAll ss =>
    cases ss with
    | nil => simp [Task.plan] at h
    | cons s ss =>
      simp only [Task.plan, begins_begin] at h
      obtain ⟨rfl, rfl⟩ | ⟨flow, m₁, h₁, h₂⟩ := h
      · exact .firstStmt
      · cases flow with
        | normal =>
          obtain ⟨rfl, rfl⟩ : t' = .executeAll ss ∧ _ := by simpa using h₂
          exact .otherStmts h₁
        | «return» value => simp at h₂
  | loop condition body => exact .of_loop h

end

/-- With budget `n + 1`, carrying out a task does a basic action by itself. -/
inductive Performs (n : Nat) : Task → Machine → Act → Machine → Prop
  | unary {node op operand m a m'} :
      evaluate n operand m = .ok a m' →
      Performs n (.evaluate (.unary node op operand)) m (.check node.span (op.apply a)) m'
  | binary {node op left right opSpan m a m₁ b m₂} :
      evaluate n left m = .ok a m₁ → evaluate n right m₁ = .ok b m₂ →
      Performs n (.evaluate (.binary node op left right opSpan)) m
        (.check opSpan (op.apply a b)) m₂
  | variable {node name m} :
      Performs n (.evaluate (.variable node name)) m (.lookUp name node) m
  | this {node m} : Performs n (.evaluate (.this node)) m (.lookUp "this" node) m
  | assign {node name value m v m'} :
      evaluate n value m = .ok v m' →
      Performs n (.evaluate (.assign node name value)) m (.assign name node v) m'
  | setField {node object name nameSpan value m i m₁ v m₂} :
      evaluate n object m = .ok (.instance i) m₁ → evaluate n value m₁ = .ok v m₂ →
      Performs n (.evaluate (.set node object name nameSpan value)) m (.setField i name v) m₂
  | fieldsOfOther {node object name nameSpan value m o m'} :
      evaluate n object m = .ok o m' → (∀ i, o ≠ .instance i) →
      Performs n (.evaluate (.set node object name nameSpan value)) m
        (.refuse (fun _ => .fieldsOfOther o.typeName) nameSpan) m'
  | checkCall {f arguments paren m} :
      Performs n (.invoke (.function f) arguments paren) m
        (.checkCall f.decl.arity arguments.length paren) m
  | calledClass {c arguments paren m} :
      Performs n (.invoke (.class c) arguments paren) m
        (.refuse (fun s => .calledClass (s.className c)) paren) m
  | notCallable {v arguments paren m} :
      (∀ f, v ≠ .function f) → (∀ c, v ≠ .class c) →
      Performs n (.invoke v arguments paren) m
        (.refuse (fun s => .notCallable (s.display v)) paren) m
  | openBody {f arguments m} :
      Performs n (.apply f arguments) m (.openBody f arguments) m
  | checkNew {c arguments paren m} :
      Performs n (.instantiate (.class c) arguments paren) m
        (.checkCall 0 arguments.length paren) m
  | notClass {v arguments paren m} :
      (∀ c, v ≠ .class c) →
      Performs n (.instantiate v arguments paren) m
        (.refuse (fun s => .notClass (s.display v)) paren) m
  | addInstance {c m} : Performs n (.make c) m (.addInstance c) m
  | readProperty {i name nameSpan m} :
      Performs n (.property (.instance i) name nameSpan) m (.readProperty i name) m
  | undefinedProperty {i name nameSpan m m'} :
      (Act.readProperty i name).run m = .ok none m' →
      Performs n (.property (.instance i) name nameSpan) m
        (.refuse (fun _ => .undefinedProperty name) nameSpan) m'
  | propertiesOfOther {o name nameSpan m} :
      (∀ i, o ≠ .instance i) →
      Performs n (.property o name nameSpan) m
        (.refuse (fun _ => .propertiesOfOther o.typeName) nameSpan) m
  | print {value span m v m'} :
      evaluate n value m = .ok v m' →
      Performs n (.execute (.print value span)) m (.print v span) m'
  | defineNil {name span m} : Performs n (.execute (.var name none span)) m (.define name .nil) m
  | define {name initializer span m v m'} :
      evaluate n initializer m = .ok v m' →
      Performs n (.execute (.var name (some initializer) span)) m (.define name v) m'
  | openBlock {body span m} : Performs n (.execute (.block body span)) m .openBlock m
  | defineFunction {decl span m} :
      Performs n (.execute (.function decl span)) m (.defineFunction decl) m
  | defineClass {name methods span m} :
      Performs n (.execute (.class name methods span)) m (.defineClass name methods) m

section

variable {n : Nat} {m m' : Machine} {t : Task} {a : Act}

/-- What a task does by itself stands in its plan. -/
theorem Performs.does (h : Performs n t m a m') : t.plan.Does n m a m' := by
  cases h with
  | unary h | assign h | print h | define h => exact .later h .now
  | binary h₁ h₂ | setField h₁ h₂ => exact .later h₁ (.later h₂ .now)
  | @fieldsOfOther node object name nameSpan value m o m' h hother =>
    refine .later h ?_
    cases o with
    | «instance» i => exact absurd rfl (hother i)
    | _ => exact .now
  | @notCallable v arguments paren m hfunction hclass =>
    cases v with
    | function f => exact absurd rfl (hfunction f)
    | «class» c => exact absurd rfl (hclass c)
    | _ => exact .now
  | @notClass v arguments paren m hclass =>
    cases v with
    | «class» c => exact absurd rfl (hclass c)
    | _ => exact .now
  | undefinedProperty h => exact .act h .now
  | @propertiesOfOther o name nameSpan m hother =>
    cases o with
    | «instance» i => exact absurd rfl (hother i)
    | _ => exact .now
  | _ => exact .now

theorem Performs.of_evaluate {e : Expr} (h : (Task.evaluate e).plan.Does n m a m') :
    Performs n (.evaluate e) m a m' := by
  cases e with
  | unary node op operand =>
    simp only [Task.plan, does_begin] at h
    obtain ⟨v, m₁, hv, h⟩ := h
    obtain ⟨rfl, rfl⟩ := does_last.1 h
    exact .unary hv
  | binary node op left right opSpan =>
    simp only [Task.plan, does_begin] at h
    obtain ⟨v, m₁, hv, w, m₂, hw, h⟩ := h
    obtain ⟨rfl, rfl⟩ := does_last.1 h
    exact .binary hv hw
  | logical node op left right =>
    simp only [Task.plan, does_begin] at h
    obtain ⟨v, m₁, -, h⟩ := h
    split at h <;> simp at h
  | «variable» node name =>
    obtain ⟨rfl, rfl⟩ : a = .lookUp name node ∧ m' = m := by simpa [Task.plan] using h
    exact .variable
  | assign node name value =>
    simp only [Task.plan, does_begin] at h
    obtain ⟨v, m₁, hv, h⟩ := h
    obtain ⟨rfl, rfl⟩ := does_last.1 h
    exact .assign hv
  | set node object name nameSpan value =>
    simp only [Task.plan, does_begin] at h
    obtain ⟨o, m₁, ho, h⟩ := h
    cases o with
    | «instance» i =>
      simp only [does_begin] at h
      obtain ⟨v, m₂, hv, h⟩ := h
      obtain ⟨rfl, rfl⟩ := does_last.1 h
      exact .setField ho hv
    | _ =>
      obtain ⟨rfl, rfl⟩ : a = .refuse _ nameSpan ∧ m' = m₁ := by simpa using h
      exact .fieldsOfOther ho (by simp)
  | this node =>
    obtain ⟨rfl, rfl⟩ : a = .lookUp "this" node ∧ m' = m := by simpa [Task.plan] using h
    exact .this
  | _ => simp [Task.plan] at h

theorem Performs.of_execute {s : Stmt} (h : (Task.execute s).plan.Does n m a m') :
    Performs n (.execute s) m a m' := by
  cases s with
  | print value span =>
    simp only [Task.plan, does_begin] at h
    obtain ⟨v, m₁, hv, h⟩ := h
    obtain ⟨rfl, rfl⟩ := does_last.1 h
    exact .print hv
  | var name initializer span =>
    cases initializer with
    | none =>
      obtain ⟨rfl, rfl⟩ : a = .define name .nil ∧ m' = m := by simpa [Task.plan] using h
      exact .defineNil
    | some initializer =>
      simp only [Task.plan, does_begin] at h
      obtain ⟨v, m₁, hv, h⟩ := h
      obtain ⟨rfl, rfl⟩ := does_last.1 h
      exact .define hv
  | block body span =>
    obtain ⟨rfl, rfl⟩ : a = .openBlock ∧ m' = m := by simpa [Task.plan] using h
    exact .openBlock
  | ifElse condition thenBranch elseBranch span =>
    simp only [Task.plan, does_begin] at h
    obtain ⟨v, m₁, -, h⟩ := h
    split at h
    · simp at h
    · cases elseBranch <;> simp at h
  | function decl span =>
    obtain ⟨rfl, rfl⟩ : a = .defineFunction decl ∧ m' = m := by simpa [Task.plan] using h
    exact .defineFunction
  | «class» name methods span =>
    obtain ⟨rfl, rfl⟩ : a = .defineClass name methods ∧ m' = m := by
      simpa [Task.plan] using h
    exact .defineClass
  | «return» value span => cases value <;> simp [Task.plan] at h
  | _ => simp [Task.plan] at h

/-- A task does what its plan does. -/
theorem performs_iff : Performs n t m a m' ↔ t.plan.Does n m a m' := by
  refine ⟨Performs.does, fun h => ?_⟩
  cases t with
  | evaluate e => exact .of_evaluate h
  | evaluateAll es => cases es <;> simp [Task.plan] at h
  | invoke callee arguments paren =>
    cases callee with
    | function f =>
      obtain ⟨rfl, rfl⟩ : a = .checkCall f.decl.arity arguments.length paren ∧ m' = m := by
        simpa [Task.plan] using h
      exact .checkCall
    | «class» c =>
      obtain ⟨rfl, rfl⟩ : a = .refuse _ paren ∧ m' = m := by simpa [Task.plan] using h
      exact .calledClass
    | _ =>
      obtain ⟨rfl, rfl⟩ : a = .refuse _ paren ∧ m' = m := by simpa [Task.plan] using h
      exact .notCallable (by simp) (by simp)
  | apply f arguments =>
    obtain ⟨rfl, rfl⟩ : a = .openBody f arguments ∧ m' = m := by simpa [Task.plan] using h
    exact .openBody
  | instantiate callee arguments paren =>
    cases callee with
    | «class» c =>
      obtain ⟨rfl, rfl⟩ : a = .checkCall 0 arguments.length paren ∧ m' = m := by
        simpa [Task.plan] using h
      exact .checkNew
    | _ =>
      obtain ⟨rfl, rfl⟩ : a = .refuse _ paren ∧ m' = m := by simpa [Task.plan] using h
      exact .notClass (by simp)
  | make c =>
    obtain ⟨rfl, rfl⟩ : a = .addInstance c ∧ m' = m := by simpa [Task.plan] using h
    exact .addInstance
  | property object name nameSpan =>
    cases object with
    | «instance» i =>
      simp only [Task.plan, does_act] at h
      obtain ⟨rfl, rfl⟩ | ⟨found, m₁, hread, h⟩ := h
      · exact .readProperty
      · cases found with
        | none =>
          obtain ⟨rfl, rfl⟩ : a = .refuse _ nameSpan ∧ m' = m₁ := by simpa using h
          exact .undefinedProperty hread
        | some value => simp at h
    | _ =>
      obtain ⟨rfl, rfl⟩ : a = .refuse _ nameSpan ∧ m' = m := by simpa [Task.plan] using h
      exact .propertiesOfOther (by simp)
  | execute s => exact .of_execute h
  | executeAll ss =>
    cases ss with
    | nil => simp [Task.plan] at h
    | cons s ss =>
      simp only [Task.plan, does_begin] at h
      obtain ⟨flow, m₁, -, h⟩ := h
      cases flow <;> simp at h
  | loop condition body =>
    simp only [Task.plan, does_begin] at h
    obtain ⟨v, m₁, -, h⟩ := h
    split at h
    · simp only [does_begin] at h
      obtain ⟨flow, m₂, -, h⟩ := h
      cases flow <;> simp at h
    · simp at h

end

/-- Before a task does something by itself, others may have answered. -/
theorem Performs.steady {n : Nat} {t : Task} {m m' : Machine} {a : Act}
    (h : Performs n t m a m') : m.Steady m' := by
  have value {e : Expr} {v : Value} {m₁ m₂ : Machine} (hv : evaluate n e m₁ = .ok v m₂) :
      m₁.Steady m₂ := (Task.keeps n (.evaluate e)).of_ok hv
  cases h with
  | unary h | assign h | fieldsOfOther h _ | print h | define h => exact value h
  | binary h₁ h₂ | setField h₁ h₂ => exact (value h₁).trans (value h₂)
  | undefinedProperty h => exact (Act.keeps _).of_ok h
  | _ => exact .refl _

/-- What is in the course of a task with budget. -/
theorem Task.mem_course_succ {n : Nat} {t : Task} {m : Machine} {e : Event} :
    e ∈ t.course (n + 1) m ↔
      e = .begins (n + 1) t m ∨ (∃ a m', Performs n t m a m' ∧ e = .acts a m') ∨
      ∃ t' m', Enters n t m t' m' ∧ e ∈ t'.course n m' := by
  simp only [course, List.mem_cons, Plan.mem_course, enters_iff, performs_iff]

/-- The tasks in the course of a task are those that it reaches. -/
theorem Task.begins_mem_course {n k : Nat} {t t' : Task} {m m' : Machine} :
    .begins k t' m' ∈ t.course n m ↔ Reaches n t m k t' m' := by
  constructor
  · intro h
    induction n generalizing t m with
    | zero =>
      obtain ⟨rfl, rfl, rfl⟩ : k = 0 ∧ t' = t ∧ m' = m := by simpa [course] using h
      exact .refl
    | succ n ih =>
      rcases mem_course_succ.1 h with h | ⟨_, _, -, h⟩ | ⟨t₁, m₁, henter, h⟩
      · cases h
        exact .refl
      · cases h
      · exact .head henter (ih h)
  · intro h
    induction n generalizing t m with
    | zero =>
      obtain ⟨rfl, rfl, rfl⟩ | ⟨_, _, _, hn, -⟩ := h.cases_head
      · exact .head _
      · cases hn
    | succ n ih =>
      obtain ⟨rfl, rfl, rfl⟩ | ⟨_, t₁, m₁, hn, henter, h⟩ := h.cases_head
      · exact .head _
      · cases hn
        exact mem_course_succ.2 (.inr (.inr ⟨t₁, m₁, henter, ih h⟩))

/-- The basic actions in the course of a task are those that the tasks it reaches do. -/
theorem Task.acts_mem_course {n : Nat} {t : Task} {m m' : Machine} {a : Act} :
    .acts a m' ∈ t.course n m ↔
      (∃ k t₁ m₁, Reaches n t m (k + 1) t₁ m₁ ∧ Performs k t₁ m₁ a m') ∨
      ∃ t₁, Reaches n t m 0 t₁ m' ∧ a = .spent t₁ := by
  constructor
  · intro h
    induction n generalizing t m with
    | zero =>
      obtain ⟨rfl, rfl⟩ : a = .spent t ∧ m' = m := by simpa [course] using h
      exact .inr ⟨t, .refl, rfl⟩
    | succ n ih =>
      rcases mem_course_succ.1 h with h | ⟨a', m', hdoes, h⟩ | ⟨t₁, m₁, henter, h⟩
      · cases h
      · cases h
        exact .inl ⟨n, t, m, .refl, hdoes⟩
      · rcases ih h with ⟨k, t₂, m₂, hreach, hdoes⟩ | ⟨t₂, hreach, rfl⟩
        · exact .inl ⟨k, t₂, m₂, .head henter hreach, hdoes⟩
        · exact .inr ⟨t₂, .head henter hreach, rfl⟩
  · intro h
    induction n generalizing t m with
    | zero =>
      rcases h with ⟨k, t₁, m₁, hreach, -⟩ | ⟨t₁, hreach, rfl⟩
      · obtain ⟨hk, -, -⟩ | ⟨_, _, _, hn, -⟩ := hreach.cases_head
        · cases hk
        · cases hn
      · obtain ⟨-, rfl, rfl⟩ | ⟨_, _, _, hn, -⟩ := hreach.cases_head
        · simp [course]
        · cases hn
    | succ n ih =>
      rw [mem_course_succ]
      rcases h with ⟨k, t₁, m₁, hreach, hdoes⟩ | ⟨t₁, hreach, rfl⟩
      · obtain ⟨hk, rfl, rfl⟩ | ⟨_, t₂, m₂, hn, henter, hreach⟩ := hreach.cases_head
        · cases hk
          exact .inr (.inl ⟨a, m', hdoes, rfl⟩)
        · cases hn
          exact .inr (.inr ⟨t₂, m₂, henter, ih (.inl ⟨k, t₁, m₁, hreach, hdoes⟩)⟩)
      · obtain ⟨hk, -, -⟩ | ⟨_, t₂, m₂, hn, henter, hreach⟩ := hreach.cases_head
        · cases hk
        · cases hn
          exact .inr (.inr ⟨t₂, m₂, henter, ih (.inr ⟨t₁, hreach, rfl⟩)⟩)

/-! ## Where an action stops -/

/-- What may stop a basic action. -/
inductive Act.Stops : Act → Stop → Prop
  | check {span fault} : Stops (.check span (.error fault)) (.error ⟨fault, span⟩)
  | lookUp {name node} : Stops (.lookUp name node) (.error ⟨.undefinedVariable name, node.span⟩)
  | assign {name node v} :
      Stops (.assign name node v) (.error ⟨.undefinedVariable name, node.span⟩)
  | wrongArity {arity count paren} :
      Stops (.checkCall arity count paren) (.error ⟨.wrongArity arity count, paren⟩)
  | stackOverflow {arity count paren} :
      Stops (.checkCall arity count paren) (.error ⟨.stackOverflow, paren⟩)
  | refuse {fault span s} : Stops (.refuse fault span) (.error ⟨fault s, span⟩)
  | print {v span} : Stops (.print v span) (.error ⟨.outputFailed "sink full", span⟩)
  | spent {t stop} : Stops (.spent t) stop

theorem Act.stops_of_error {a : Act} {m m' : Machine} {stop : Stop}
    (h : a.run m = .error stop m') : a.Stops stop := by
  cases a with
  | check span answer =>
    cases answer with
    | ok v => cases h
    | error fault =>
      cases h
      exact .check
  | lookUp name node =>
    rw [run, lookUp_apply] at h
    split at h <;> cases h
    exact .lookUp
  | assign name node v =>
    rw [run, assign_apply] at h
    dsimp only at h
    split at h <;> cases h
    exact .assign
  | checkCall arity count paren =>
    rw [run, checkCall_apply] at h
    split at h
    · cases h
      exact .wrongArity
    · split at h <;> cases h
      exact .stackOverflow
  | refuse fault span =>
    cases h
    exact .refuse
  | print v span =>
    replace h : Run.print (m.store.display v) span m = .error stop m' := h
    rw [print_apply] at h
    dsimp only at h
    split at h <;> cases h
    exact .print
  | defineClass name methods =>
    rw [run, defineClass_apply] at h
    cases h
  | spent t => exact .spent
  | _ => cases h

/-- A plan stops where one of its basic actions stops, or a task that it begins. -/
theorem Plan.origin_of_error {n : Nat} {α : Type} {p : Plan α} {m m' : Machine} {stop : Stop}
    (h : p.run n m = .error stop m') :
    (∃ a m₁ m₂, p.Does n m a m₁ ∧ a.run m₁ = .error stop m₂) ∨
      ∃ t m₁ m₂, p.Begins n m t m₁ ∧ t.run n m₁ = .error stop m₂ := by
  induction p generalizing m with
  | answer a => cases h
  | act a next ih =>
    rcases bind_eq_error.1 h with h | ⟨b, m₁, hact, h⟩
    · exact .inl ⟨a, m, m', .now, h⟩
    · rcases ih b h with ⟨a', m₂, m₃, hdoes, h⟩ | ⟨t, m₂, m₃, hbegins, h⟩
      · exact .inl ⟨a', m₂, m₃, .act hact hdoes, h⟩
      · exact .inr ⟨t, m₂, m₃, .act hact hbegins, h⟩
  | begin s t next ih =>
    rcases bind_eq_error.1 h with h | ⟨b, m₁, hbegin, h⟩
    · obtain ⟨m₁, h, -⟩ := Setting.run_eq_error.1 h
      exact .inr ⟨t, s.enter m, m₁, .now, h⟩
    · rcases ih b h with ⟨a', m₂, m₃, hdoes, h⟩ | ⟨t, m₂, m₃, hbegins, h⟩
      · exact .inl ⟨a', m₂, m₃, .later hbegin hdoes, h⟩
      · exact .inr ⟨t, m₂, m₃, .later hbegin hbegins, h⟩

/-- Whatever stops a task has stopped one of the basic actions in its course. -/
theorem Task.origin_of_error {n : Nat} {t : Task} {m m' : Machine} {stop : Stop}
    (h : t.run n m = .error stop m') :
    ∃ a m₁ m₂, .acts a m₁ ∈ t.course n m ∧ a.run m₁ = .error stop m₂ := by
  induction n generalizing t m m' with
  | zero => exact ⟨.spent t, m, m', .tail _ (.head _), h⟩
  | succ n ih =>
    rw [run_succ] at h
    rcases Plan.origin_of_error h with ⟨a, m₁, m₂, hdoes, h⟩ | ⟨t', m₁, m₂, hbegins, h⟩
    · exact ⟨a, m₁, m₂, mem_course_succ.2 (.inr (.inl ⟨a, m₁, performs_iff.2 hdoes, rfl⟩)), h⟩
    · obtain ⟨a, m₃, m₄, ha, h⟩ := ih h
      exact ⟨a, m₃, m₄, mem_course_succ.2 (.inr (.inr ⟨t', m₁, enters_iff.2 hbegins, ha⟩)), h⟩

/-! ## The state between events -/

/-- The part of the machine that neither frames nor calls put back. -/
def Machine.world (m : Machine) : Store × Output := (m.store, m.output)

theorem Setting.world_endState {α : Type} (s : Setting) (x : Run α) (m : Machine) :
    (endState (s.run x) m).world = (endState x (s.enter m)).world := by
  cases h : x (s.enter m) with
  | ok a m' => simp [endState_of_ok h, endState_of_ok (s.run_of_ok h), Machine.world]
  | error stop m' => simp [endState_of_error h, endState_of_error (s.run_of_error h), Machine.world]

/-- Each event finds the state that the event before it has left. -/
inductive Traces : Store × Output → List Event → Store × Output → Prop
  | nil {w} : Traces w [] w
  | cons {e es w} : Traces e.after.world es w → Traces e.machine.world (e :: es) w

namespace Traces

variable {w w' w'' : Store × Output} {es es' : List Event}

theorem append (h : Traces w es w') (h' : Traces w' es' w'') : Traces w (es ++ es') w'' := by
  induction h with
  | nil => exact h'
  | cons _ ih => exact .cons (ih h')

/-- What every basic action keeps holds at every event and at the end. -/
theorem invariant (h : Traces w es w') {P : Store × Output → Prop} (hw : P w)
    (hacts : ∀ a m, .acts a m ∈ es → P m.world → P (endState a.run m).world) :
    P w' ∧ ∀ e ∈ es, P e.machine.world ∧ P e.after.world := by
  induction h with
  | nil => exact ⟨hw, by simp⟩
  | @cons e es w _ ih =>
    have hafter : P e.after.world := by
      cases e with
      | begins n t m => exact hw
      | acts a m => exact hacts a m (.head _) hw
    obtain ⟨hend, hlater⟩ := ih hafter fun a m ha => hacts a m (.tail _ ha)
    exact ⟨hend, List.forall_mem_cons.2 ⟨⟨hw, hafter⟩, hlater⟩⟩

/-- Events can be cut at one of them. -/
theorem split {e : Event} (h : Traces w (es ++ e :: es') w') :
    Traces w es e.machine.world ∧ Traces e.after.world es' w' := by
  induction es generalizing w with
  | nil =>
    cases h with
    | cons h => exact ⟨.nil, h⟩
  | cons e' es ih =>
    cases h with
    | cons h =>
      obtain ⟨h₁, h₂⟩ := ih h
      exact ⟨.cons h₁, h₂⟩

end Traces

theorem Plan.traces_course {n : Nat} {α : Type} {inner : Task → Machine → List Event}
    (hinner : ∀ t m, Traces m.world (inner t m) (endState (t.run n) m).world) (p : Plan α)
    (m : Machine) : Traces m.world (p.course n inner m) (endState (p.run n) m).world := by
  induction p generalizing m with
  | answer a => exact .nil
  | act a next ih =>
    refine .cons (e := .acts a m) ?_
    cases h : a.run m with
    | ok b m₁ =>
      rw [follow_of_ok h, Event.after, endState_of_ok h, Plan.run, endState_bind_of_ok h]
      exact ih b m₁
    | error stop m₁ =>
      rw [follow_of_error h, Event.after, endState_of_error h, Plan.run,
        endState_bind_of_error h]
      exact .nil
  | begin s t next ih =>
    have hfirst := hinner t (s.enter m)
    rw [← Setting.world_endState] at hfirst
    have henter : (s.enter m).world = m.world := by simp [Machine.world]
    rw [henter] at hfirst
    refine hfirst.append ?_
    cases h : s.run (t.run n) m with
    | ok b m₁ =>
      rw [follow_of_ok h, endState_of_ok h, Plan.run, endState_bind_of_ok h]
      exact ih b m₁
    | error stop m₁ =>
      rw [follow_of_error h, endState_of_error h, Plan.run, endState_bind_of_error h]
      exact .nil

/-- The course of a task leads from the machine on which it is begun to the one on which
it ends. -/
theorem Task.traces_course (n : Nat) (t : Task) (m : Machine) :
    Traces m.world (t.course n m) (endState (t.run n) m).world := by
  induction n generalizing t m with
  | zero => exact .cons (e := .begins 0 t m) (.cons (e := .acts (.spent t) m) .nil)
  | succ n ih =>
    refine .cons (e := .begins (n + 1) t m) ?_
    rw [run_succ]
    exact Plan.traces_course ih t.plan m

/-! ## Programs -/

/-- What a program begins: its statements in order. -/
def Plan.statements : List Stmt → Plan Unit
  | [] => .answer ()
  | s :: ss => .begin .here (.execute s) fun _ => Plan.statements ss

theorem Plan.run_statements (budget : Nat) (ss : List Stmt) :
    (Plan.statements ss).run budget = Run.statements budget ss := by
  induction ss with
  | nil => rfl
  | cons s ss ih =>
    rw [Plan.statements, Plan.run, Run.statements, ih]
    rfl

theorem Plan.does_statements {n : Nat} {ss : List Stmt} {m m' : Machine} {a : Act} :
    ¬ (Plan.statements ss).Does n m a m' := by
  induction ss generalizing m with
  | nil => simp [Plan.statements]
  | cons s ss ih => simp [Plan.statements, ih]

theorem Plan.begins_statements {n : Nat} {ss : List Stmt} {t : Task} {m m' : Machine} :
    (Plan.statements ss).Begins n m t m' ↔
      ∃ before s rest, ss = before ++ s :: rest ∧ Run.statements n before m = .ok () m' ∧
        t = .execute s := by
  induction ss generalizing m with
  | nil => simp [Plan.statements]
  | cons s ss ih =>
    simp only [Plan.statements, begins_begin, ih]
    constructor
    · rintro (⟨rfl, rfl⟩ | ⟨flow, m₁, hs, before, s', rest, rfl, hbefore, rfl⟩)
      · exact ⟨[], s, ss, rfl, rfl, rfl⟩
      · refine ⟨s :: before, s', rest, rfl, ?_, rfl⟩
        rw [Run.statements, bind_of_ok (show execute n s m = .ok flow m₁ from hs)]
        exact hbefore
    · rintro ⟨before, s', rest, hss, hbefore, rfl⟩
      cases before with
      | nil =>
        cases hss
        cases hbefore
        exact .inl ⟨rfl, rfl⟩
      | cons _ before =>
        cases hss
        obtain ⟨flow, m₁, hs, hbefore⟩ := bind_eq_ok.1 hbefore
        exact .inr ⟨flow, m₁, hs, before, s', rest, rfl, hbefore, rfl⟩

namespace Compiled

/-- The course of a program. -/
def course (budget : Nat) (c : Compiled) (m : Machine) : List Event :=
  (Plan.statements c.program.statements).course budget (fun t m => t.course budget m)
    (m.learn c.locals)

variable {budget : Nat} {c : Compiled} {m : Machine}

theorem mem_course {e : Event} :
    e ∈ c.course budget m ↔
      ∃ before s rest m₁, c.program.statements = before ++ s :: rest ∧
        Run.statements budget before (m.learn c.locals) = .ok () m₁ ∧
        e ∈ (Task.execute s).course budget m₁ := by
  rw [course, Plan.mem_course]
  simp only [Plan.does_statements, false_and, exists_false, false_or, Plan.begins_statements]
  constructor
  · rintro ⟨_, m₁, ⟨before, s, rest, hss, hbefore, rfl⟩, he⟩
    exact ⟨before, s, rest, m₁, hss, hbefore, he⟩
  · rintro ⟨before, s, rest, m₁, hss, hbefore, he⟩
    exact ⟨_, m₁, ⟨before, s, rest, hss, hbefore, rfl⟩, he⟩

theorem begins_mem_course {n : Nat} {t : Task} {m' : Machine} :
    .begins n t m' ∈ c.course budget m ↔ c.Begins budget m n t m' := by
  simp only [mem_course, Task.begins_mem_course, Compiled.Begins]

theorem acts_mem_course {a : Act} {m' : Machine} :
    .acts a m' ∈ c.course budget m ↔
      (∃ k t₁ m₁, c.Begins budget m (k + 1) t₁ m₁ ∧ Performs k t₁ m₁ a m') ∨
      ∃ t₁, c.Begins budget m 0 t₁ m' ∧ a = .spent t₁ := by
  simp only [mem_course, Task.acts_mem_course, Compiled.Begins]
  constructor
  · rintro ⟨before, s, rest, m₁, hss, hbefore, ⟨k, t₁, m₂, hreach, hdoes⟩ | ⟨t₁, hreach, rfl⟩⟩
    · exact .inl ⟨k, t₁, m₂, ⟨before, s, rest, m₁, hss, hbefore, hreach⟩, hdoes⟩
    · exact .inr ⟨t₁, ⟨before, s, rest, m₁, hss, hbefore, hreach⟩, rfl⟩
  · rintro (⟨k, t₁, m₂, ⟨before, s, rest, m₁, hss, hbefore, hreach⟩, hdoes⟩ |
      ⟨t₁, ⟨before, s, rest, m₁, hss, hbefore, hreach⟩, rfl⟩)
    · exact ⟨before, s, rest, m₁, hss, hbefore, .inl ⟨k, t₁, m₂, hreach, hdoes⟩⟩
    · exact ⟨before, s, rest, m₁, hss, hbefore, .inr ⟨t₁, hreach, rfl⟩⟩

/-- Whatever stops a program has stopped one of the basic actions in its course. -/
theorem origin_of_error {stop : Stop} {m' : Machine}
    (h : Run.program budget c.program c.locals m = .error stop m') :
    ∃ a m₁ m₂, .acts a m₁ ∈ c.course budget m ∧ a.run m₁ = .error stop m₂ := by
  rw [program_apply, ← Plan.run_statements] at h
  rcases Plan.origin_of_error h with ⟨a, m₁, m₂, hdoes, -⟩ | ⟨t, m₁, m₂, hbegins, h⟩
  · exact (Plan.does_statements hdoes).elim
  · obtain ⟨a, m₃, m₄, ha, h⟩ := Task.origin_of_error h
    exact ⟨a, m₃, m₄, Plan.mem_course.2 (.inr ⟨t, m₁, hbegins, ha⟩), h⟩

theorem traces_course (budget : Nat) (c : Compiled) (m : Machine) :
    Traces m.world (c.course budget m) (Session.runCompiled budget m c).2.world := by
  rw [runCompiled_snd, ← Plan.run_statements]
  exact Plan.traces_course (fun t m => t.traces_course budget m) _ (m.learn c.locals)

end Compiled

/-! ## Sessions -/

namespace Session

/-- The course of a session of source texts. -/
def course (budget : Nat) (session : Session) : List String → List Event
  | [] => []
  | source :: sources =>
    (match (compile session.supply source).result with
      | .ok c => c.course budget session.machine
      | .error _ => []) ++ (session.step budget source).2.course budget sources

theorem runs_cons {budget : Nat} {session : Session} {source : String}
    {sources : List String} {c : Compiled} {m : Machine} :
    session.Runs budget (source :: sources) c m ↔
      ((compile session.supply source).result = .ok c ∧ m = session.machine) ∨
      (session.step budget source).2.Runs budget sources c m := by
  constructor
  · rintro ⟨before, source', rest, hsources, hc, rfl⟩
    cases before with
    | nil =>
      cases hsources
      exact .inl ⟨hc, rfl⟩
    | cons _ before =>
      cases hsources
      exact .inr ⟨before, source', rest, rfl, hc, rfl⟩
  · rintro (⟨hc, rfl⟩ | ⟨before, source', rest, rfl, hc, rfl⟩)
    · exact ⟨[], source, sources, rfl, hc, rfl⟩
    · exact ⟨source :: before, source', rest, rfl, hc, rfl⟩

theorem mem_course {budget : Nat} {session : Session} {sources : List String} {e : Event} :
    e ∈ session.course budget sources ↔
      ∃ c m, session.Runs budget sources c m ∧ e ∈ c.course budget m := by
  induction sources generalizing session with
  | nil => simp [course, Runs]
  | cons source sources ih =>
    rw [course, List.mem_append, ih]
    simp only [runs_cons]
    constructor
    · rintro (he | ⟨c, m, hruns, he⟩)
      · split at he
        · next c hc => exact ⟨c, _, .inl ⟨hc, rfl⟩, he⟩
        · cases he
      · exact ⟨c, m, .inr hruns, he⟩
    · rintro ⟨c, m, ⟨hc, rfl⟩ | hruns, he⟩
      · left
        rwa [hc]
      · exact .inr ⟨c, m, hruns, he⟩

theorem begins_mem_course {budget n : Nat} {session : Session} {sources : List String}
    {t : Task} {m : Machine} :
    .begins n t m ∈ session.course budget sources ↔ session.Begins budget sources n t m := by
  simp only [mem_course, Compiled.begins_mem_course, Begins]

theorem acts_mem_course {budget : Nat} {session : Session} {sources : List String} {a : Act}
    {m : Machine} :
    .acts a m ∈ session.course budget sources ↔
      (∃ k t m₁, session.Begins budget sources (k + 1) t m₁ ∧ Performs k t m₁ a m) ∨
      ∃ t, session.Begins budget sources 0 t m ∧ a = .spent t := by
  simp only [mem_course, Compiled.acts_mem_course, Begins]
  constructor
  · rintro ⟨c, m₀, hruns, ⟨k, t, m₁, hbegins, hperforms⟩ | ⟨t, hbegins, rfl⟩⟩
    · exact .inl ⟨k, t, m₁, ⟨c, m₀, hruns, hbegins⟩, hperforms⟩
    · exact .inr ⟨t, ⟨c, m₀, hruns, hbegins⟩, rfl⟩
  · rintro (⟨k, t, m₁, ⟨c, m₀, hruns, hbegins⟩, hperforms⟩ | ⟨t, ⟨c, m₀, hruns, hbegins⟩, rfl⟩)
    · exact ⟨c, m₀, hruns, .inl ⟨k, t, m₁, hbegins, hperforms⟩⟩
    · exact ⟨c, m₀, hruns, .inr ⟨t, hbegins, rfl⟩⟩

/-- The course of a session leads from its first machine to its last. -/
theorem traces_course (budget : Nat) (session : Session) (sources : List String) :
    Traces session.machine.world (session.course budget sources)
      (session.afterAll budget sources).machine.world := by
  induction sources generalizing session with
  | nil => exact .nil
  | cons source sources ih =>
    refine Traces.append ?_ (ih (session.step budget source).2)
    cases hc : (compile session.supply source).result with
    | ok c =>
      rw [step_of_ok hc]
      exact c.traces_course budget session.machine
    | error errors =>
      rw [step_of_error hc]
      exact .nil

end Session

end Lox
