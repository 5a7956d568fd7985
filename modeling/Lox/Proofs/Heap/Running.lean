import Lox.Proofs.Heap.Sound

/-!
# Running code keeps the store sound

A value under way, between the event that made it and the place where it ends up, refers to
what is in the store as well.  If that holds of the values of a task that is begun on a sound
machine, it holds of all that happens in its course, and the store that it leaves is sound
(`Task.endsSound`).

**Later stores.** What a task goes on with is used in the store that is left at that moment.
Since stores persist, values that were there before are there still, and `Plan.In` asks of
what follows in a plan that it be right in every later store.
-/

namespace Lox

open Run

/-! ## Values under way -/

/-- What a statement returns is there. -/
def Flow.In (s : Store) (flow : Flow) : Prop := ∀ v, flow = .return v → v.In s

/-- The values that the task begins with are there. -/
def Task.In (s : Store) : Task → Prop
  | invoke callee arguments _ => callee.In s ∧ ∀ v ∈ arguments, v.In s
  | apply f arguments => (Value.function f).In s ∧ ∀ v ∈ arguments, v.In s
  | instantiate callee _ _ => callee.In s
  | make c => (Value.class c).In s
  | property object _ _ => object.In s
  | _ => True

/-- What the task answers is there. -/
def Task.AnswersIn (s : Store) : (t : Task) → t.Answer → Prop
  | evaluate _, v => Value.In s v
  | evaluateAll _, vs => ∀ v ∈ vs, Value.In s v
  | invoke .., v => Value.In s v
  | apply .., v => Value.In s v
  | instantiate .., v => Value.In s v
  | make _, v => Value.In s v
  | property .., v => Value.In s v
  | execute _, flow => Flow.In s flow
  | executeAll _, flow => Flow.In s flow
  | loop .., flow => Flow.In s flow

/-- The values that the basic action has are there. -/
def Act.In (s : Store) : Act → Prop
  | check _ answer => ∀ v, answer = .ok v → v.In s
  | assign _ _ v => v.In s
  | readProperty i _ => (Value.instance i).In s
  | setField i _ v => (Value.instance i).In s ∧ v.In s
  | addInstance c => (Value.class c).In s
  | print v _ => v.In s
  | define _ v => v.In s
  | openBody f arguments => (Value.function f).In s ∧ ∀ v ∈ arguments, v.In s
  | spent t => t.In s
  | _ => True

/-- What the basic action answers is there. -/
def Act.AnswersIn (s : Store) : (a : Act) → a.Answer → Prop
  | check .., v => Value.In s v
  | lookUp .., v => Value.In s v
  | readProperty .., found => ∀ v, found = some v → Value.In s v
  | addInstance _, v => Value.In s v
  | refuse .., _ => False
  | openBlock, frame => frame < s.frames.size
  | openBody .., frame => frame < s.frames.size
  | spent t, a => t.AnswersIn s a
  | _, _ => True

/-- The frame in which a task is to be carried out is there. -/
def Setting.In (s : Store) : Setting → Prop
  | inFrame frame => frame < s.frames.size
  | _ => True

/-- The values of each basic action and task of the plan are there, if the values that were
answered before are, and then so is the answer of the plan. -/
def Plan.In {α : Type} (answer : Store → α → Prop) : Plan α → Store → Prop
  | .answer a, s => answer s a
  | .act a next, s => a.In s ∧
    ∀ s', s.Persists s' → ∀ b, a.AnswersIn s' b → (next b).In answer s'
  | .begin setting t next, s => setting.In s ∧ t.In s ∧
    ∀ s', s.Persists s' → ∀ b, t.AnswersIn s' b → (next b).In answer s'

/-- The store is sound, and the current frame is there. -/
structure Machine.Sound (globals : FrameId) (m : Machine) : Prop where
  /-- The store is sound. -/
  store : m.store.Sound globals
  /-- The current frame is there. -/
  current_lt : m.current < m.store.frames.size

/-- What happens finds a sound machine, and the values that it has are there. -/
def Event.Sound (globals : FrameId) : Event → Prop
  | begins _ t m => t.In m.store ∧ m.Sound globals
  | acts a m => a.In m.store ∧ m.Sound globals

/-! ## Basic actions -/

section

variable {globals : FrameId} {a : Act} {m m' : Machine}

/-- A basic action with values that are there leaves a sound store. -/
theorem Act.sound_store (h : a.In m.store) (hm : m.Sound globals) :
    (a.store m).Sound globals := by
  obtain ⟨hstore, hcurrent⟩ := hm
  cases a with
  | assign name node v => exact hstore.assigned name node h
  | readProperty i name => exact (hstore.property i name).1
  | setField i name v => exact hstore.setField i name h.2
  | addInstance c => exact hstore.addInstance h
  | define name v => exact hstore.define _ name h
  | defineFunction f => exact hstore.define _ _ hcurrent
  | defineClass name methods => exact hstore.declaredClass hcurrent name methods
  | openBlock => exact hstore.addFrame hcurrent
  | openBody f arguments =>
    exact (hstore.addFrame h.1).defineAll _ _ fun v hv => (h.2 v hv).mono (.addFrame _ _)
  | spent t =>
    cases t with
    | instantiate callee arguments paren =>
      cases callee with
      | «class» c =>
        rw [store]
        split
        · exact hstore.addInstance h
        · exact hstore
      | _ => exact hstore
    | make c => exact hstore.addInstance h
    | property object name nameSpan =>
      cases object with
      | «instance» i => exact (hstore.property i name).1
      | _ => exact hstore
    | _ => exact hstore
  | _ => exact hstore

theorem Store.in_addInstance (s : Store) (c : ClassId) :
    (Value.instance (s.addInstance c).1).In (s.addInstance c).2 := by
  show s.instances.size < (s.instances.push _).size
  rw [Array.size_push]
  exact Nat.lt_succ_self _

theorem Store.lt_addFrame (s : Store) (enclosing : Option FrameId) :
    s.frames.size < (s.addFrame enclosing).2.frames.size := by
  rw [size_addFrame]
  exact Nat.lt_succ_self _

/-- What a basic action answers is there in the store that it leaves. -/
theorem Act.answersIn (h : a.In m.store) (hm : m.Sound globals) {b : a.Answer}
    (hb : a.run m = .ok b m') : a.AnswersIn m'.store b := by
  cases a with
  | check span answer =>
    cases answer with
    | ok v =>
      cases hb
      exact h v rfl
    | error fault => cases hb
  | lookUp name node =>
    rw [run, lookUp_apply] at hb
    cases hfound : found? m name node with
    | none =>
      rw [hfound] at hb
      cases hb
    | some v =>
      rw [hfound] at hb
      cases hb
      exact hm.store.found? hfound
  | refuse fault span => cases hb
  | readProperty i name =>
    cases hb
    exact (hm.store.property i name).2
  | addInstance c =>
    cases hb
    exact m.store.in_addInstance c
  | openBlock =>
    cases hb
    exact m.store.lt_addFrame _
  | openBody f arguments =>
    cases hb
    exact Nat.lt_of_lt_of_le (m.store.lt_addFrame _) (Store.Grows.defineAll _ _ _ _).size_le
  | spent t =>
    cases t with
    | instantiate callee arguments paren =>
      cases callee with
      | «class» c =>
        replace hb : Run.instantiate (.class c) arguments paren m = .ok b m' := hb
        rw [instantiate_class_apply] at hb
        split at hb
        · cases hb
        · split at hb
          · cases hb
          · cases hb
            exact m.store.in_addInstance c
      | _ => cases hb
    | make c =>
      cases hb
      exact m.store.in_addInstance c
    | property object name nameSpan =>
      cases object with
      | «instance» i =>
        replace hb : Run.property (.instance i) name nameSpan m = .ok b m' := hb
        rw [property_instance_apply] at hb
        cases hread : (m.store.property i name).1 with
        | none =>
          rw [hread] at hb
          cases hb
        | some v =>
          rw [hread] at hb
          cases hb
          exact (hm.store.property i name).2 _ hread
      | _ => cases hb
    | _ => cases hb
  | _ => trivial

/-- A machine stays sound if its store does and the current frame is put back. -/
theorem Machine.Sound.next (hm : m.Sound globals) (hsteady : m.Steady m')
    (hstore : m'.store.Sound globals) : m'.Sound globals := by
  refine ⟨hstore, ?_⟩
  rw [hsteady.current]
  exact Nat.lt_of_lt_of_le hm.current_lt hsteady.store.size_le

theorem Machine.Sound.enter (hm : m.Sound globals) {setting : Setting}
    (h : setting.In m.store) : (setting.enter m).Sound globals := by
  cases setting with
  | here => exact hm
  | inFrame frame => exact ⟨hm.store, h⟩
  | inCall => exact ⟨hm.store, hm.current_lt⟩

end

/-! ## Plans -/

section

variable {s : Store}

/-- Operators make numbers, texts and truth values. -/
theorem UnaryOp.in_of_apply {op : UnaryOp} {v u : Value} (h : op.apply v = .ok u) : u.In s := by
  unfold UnaryOp.apply at h
  split at h <;> cases h <;> trivial

theorem BinaryOp.in_of_apply {op : BinaryOp} {v w u : Value} (h : op.apply v w = .ok u) :
    u.In s := by
  have onNumbers {α : Type} {f : Float → Float → α} (g : α → Value) (hg : ∀ a, (g a).In s)
      (h : (onNumbers f v w).map g = .ok u) : u.In s := by
    unfold Lox.onNumbers at h
    split at h <;> cases h
    exact hg _
  cases op with
  | add =>
    replace h : addValues v w = .ok u := h
    unfold addValues at h
    split at h <;> cases h <;> trivial
  | divide =>
    replace h : divideValues v w = .ok u := h
    unfold divideValues at h
    split at h
    · split at h <;> cases h
      trivial
    · cases h
  | equal | notEqual =>
    cases h
    trivial
  | subtract | multiply => exact onNumbers .number (fun _ => trivial) h
  | less | lessEqual | greater | greaterEqual => exact onNumbers .bool (fun _ => trivial) h

/-- The values of what is done and begun to evaluate an expression are there. -/
theorem Expr.in_plan (e : Expr) :
    (Task.evaluate e).plan.In (fun s' => (Task.evaluate e).AnswersIn s') s := by
  cases e with
  | literal node value => exact Value.in_ofConstant s value
  | grouping node inner => exact ⟨trivial, trivial, fun s' _ v hv => hv⟩
  | unary node op operand =>
    refine ⟨trivial, trivial, fun s' _ v _ => ⟨fun u hu => ?_, fun s'' _ u hu => hu⟩⟩
    exact op.in_of_apply hu
  | binary node op left right opSpan =>
    refine ⟨trivial, trivial, fun s' _ v _ => ⟨trivial, trivial, fun s'' _ w _ =>
      ⟨fun u hu => ?_, fun _ _ u hu => hu⟩⟩⟩
    exact op.in_of_apply hu
  | logical node op left right =>
    refine ⟨trivial, trivial, fun s' _ v hv => ?_⟩
    dsimp only
    split
    · exact hv
    · exact ⟨trivial, trivial, fun s'' _ w hw => hw⟩
  | «variable» node name => exact ⟨trivial, fun s' _ v hv => hv⟩
  | assign node name value =>
    exact ⟨trivial, trivial, fun s' _ v hv => ⟨hv, fun s'' hs' _ _ => hv.mono hs'⟩⟩
  | call node callee arguments paren =>
    exact ⟨trivial, trivial, fun s' _ f hf => ⟨trivial, trivial, fun s'' hs' vs hvs =>
      ⟨trivial, ⟨hf.mono hs', hvs⟩, fun _ _ v hv => hv⟩⟩⟩
  | new node callee arguments paren =>
    exact ⟨trivial, trivial, fun s' _ c hc => ⟨trivial, trivial, fun s'' hs' vs _ =>
      ⟨trivial, hc.mono hs', fun _ _ v hv => hv⟩⟩⟩
  | get node object name nameSpan =>
    exact ⟨trivial, trivial, fun s' _ o ho => ⟨trivial, ho, fun _ _ v hv => hv⟩⟩
  | set node object name nameSpan value =>
    refine ⟨trivial, trivial, fun s' _ o ho => ?_⟩
    cases o with
    | «instance» i =>
      have hi : (Value.instance i).In s' := ho
      exact ⟨trivial, trivial, fun s'' hs' v hv =>
        ⟨⟨hi.mono hs', hv⟩, fun _ hs'' _ _ => hv.mono hs''⟩⟩
    | _ => exact ⟨trivial, fun _ _ _ hv => hv.elim⟩
  | this node => exact ⟨trivial, fun s' _ v hv => hv⟩

theorem Stmt.in_plan (stmt : Stmt) :
    (Task.execute stmt).plan.In (fun s' => (Task.execute stmt).AnswersIn s') s := by
  have hnormal (s' : Store) : Flow.normal.In s' := fun v hv => by cases hv
  cases stmt with
  | expression value span => exact ⟨trivial, trivial, fun s' _ _ _ => hnormal s'⟩
  | print value span =>
    exact ⟨trivial, trivial, fun s' _ v hv => ⟨hv, fun s'' _ _ _ => hnormal s''⟩⟩
  | var name initializer span =>
    cases initializer with
    | none => exact ⟨trivial, fun s' _ _ _ => hnormal s'⟩
    | some initializer =>
      exact ⟨trivial, trivial, fun s' _ v hv => ⟨hv, fun s'' _ _ _ => hnormal s''⟩⟩
  | block body span =>
    exact ⟨trivial, fun s' _ frame hframe => ⟨hframe, trivial, fun _ _ flow hflow => hflow⟩⟩
  | ifElse condition thenBranch elseBranch span =>
    refine ⟨trivial, trivial, fun s' _ v _ => ?_⟩
    dsimp only
    split
    · exact ⟨trivial, trivial, fun _ _ flow hflow => hflow⟩
    · cases elseBranch with
      | none => exact hnormal s'
      | some branch => exact ⟨trivial, trivial, fun _ _ flow hflow => hflow⟩
  | «while» condition body span => exact ⟨trivial, trivial, fun _ _ flow hflow => hflow⟩
  | function f span => exact ⟨trivial, fun s' _ _ _ => hnormal s'⟩
  | «class» name methods span => exact ⟨trivial, fun s' _ _ _ => hnormal s'⟩
  | «return» value span =>
    cases value with
    | none =>
      rintro _ ⟨⟩
      trivial
    | some value =>
      refine ⟨trivial, trivial, fun s' _ v hv => ?_⟩
      rintro _ ⟨⟩
      exact hv

/-- If the values that a task begins with are there, so are those of what it does and
begins. -/
theorem Task.in_plan {t : Task} (h : t.In s) : t.plan.In (fun s' => t.AnswersIn s') s := by
  cases t with
  | evaluate e => exact e.in_plan
  | evaluateAll es =>
    cases es with
    | nil => exact fun v hv => by cases hv
    | cons e es =>
      exact ⟨trivial, trivial, fun s' _ v hv => ⟨trivial, trivial, fun s'' hs' vs hvs =>
        List.forall_mem_cons.2 ⟨hv.mono hs', hvs⟩⟩⟩
  | invoke callee arguments paren =>
    cases callee with
    | function f =>
      refine ⟨trivial, fun s' hs _ _ => ⟨trivial, ⟨h.1.mono hs, fun v hv => ?_⟩,
        fun _ _ v hv => hv⟩⟩
      exact (h.2 v hv).mono hs
    | _ => exact ⟨trivial, fun _ _ _ hv => hv.elim⟩
  | apply f arguments =>
    refine ⟨h, fun s' _ frame hframe => ⟨hframe, trivial, fun s'' _ flow hflow => ?_⟩⟩
    cases flow with
    | normal => trivial
    | «return» v => exact hflow v rfl
  | instantiate callee arguments paren =>
    cases callee with
    | «class» c =>
      have hc : (Value.class c).In s := h
      exact ⟨trivial, fun s' hs _ _ => ⟨trivial, hc.mono hs, fun _ _ v hv => hv⟩⟩
    | _ => exact ⟨trivial, fun _ _ _ hv => hv.elim⟩
  | make c => exact ⟨h, fun _ _ v hv => hv⟩
  | property object name nameSpan =>
    cases object with
    | «instance» i =>
      refine ⟨h, fun s' _ found hfound => ?_⟩
      cases found with
      | some v => exact hfound v rfl
      | none => exact ⟨trivial, fun _ _ _ hv => hv.elim⟩
    | _ => exact ⟨trivial, fun _ _ _ hv => hv.elim⟩
  | execute stmt => exact stmt.in_plan
  | executeAll ss =>
    cases ss with
    | nil => exact fun v hv => by cases hv
    | cons stmt ss =>
      refine ⟨trivial, trivial, fun s' _ flow hflow => ?_⟩
      cases flow with
      | normal => exact ⟨trivial, trivial, fun _ _ flow hflow => hflow⟩
      | «return» v => exact hflow
  | loop condition body =>
    refine ⟨trivial, trivial, fun s' _ v _ => ?_⟩
    dsimp only
    split
    · refine ⟨trivial, trivial, fun s'' _ flow hflow => ?_⟩
      cases flow with
      | normal => exact ⟨trivial, trivial, fun _ _ flow hflow => hflow⟩
      | «return» v => exact hflow
    · exact fun v hv => by cases hv

end

/-! ## What a run leaves -/

namespace Traces

variable {w w' : Store × Output} {es : List Event}

/-- Events change nothing that lasts. -/
theorem persists (h : Traces w es w') :
    w.1.Persists w'.1 ∧
      ∀ x ∈ es, w.1.Persists x.machine.store ∧ w.1.Persists x.after.store :=
  h.always (P := fun s => w.1.Persists s) (.refl _) fun a m _ hm => hm.trans (a.persists m)

end Traces

theorem Task.persists (n : Nat) (t : Task) (m : Machine) :
    m.store.Persists (endState (t.run n) m).store := (t.traces_course n m).persists.1

/-- How an action goes on a sound machine: what happens in its course, the store that it
leaves, and its answer. -/
structure EndsSound (globals : FrameId) {α : Type} (answer : Store → α → Prop) (x : Run α)
    (es : List Event) (m : Machine) : Prop where
  /-- What happens finds sound machines. -/
  course : ∀ e ∈ es, e.Sound globals
  /-- The store that is left is sound. -/
  store : (endState x m).store.Sound globals
  /-- The answer is there. -/
  answer : ∀ a m', x m = .ok a m' → answer m'.store a

section

variable {globals : FrameId}

theorem Plan.endsSound {n : Nat} {α : Type} {answer : Store → α → Prop}
    (htasks : ∀ (t : Task) (m : Machine), t.In m.store → m.Sound globals →
      EndsSound globals (fun s => t.AnswersIn s) (t.run n) (t.course n m) m)
    {p : Plan α} {m : Machine} (h : p.In answer m.store) (hm : m.Sound globals) :
    EndsSound globals answer (p.run n) (p.course n (fun t m => t.course n m) m) m := by
  induction p generalizing m with
  | answer a =>
    refine ⟨by simp [Plan.course], hm.store, fun b m' hb => ?_⟩
    cases hb
    exact h
  | act a next ih =>
    obtain ⟨hact, hnext⟩ := h
    have hleft := Act.sound_store hact hm
    have hlasts := a.persists m
    rw [← a.endState_store] at hleft hlasts
    have hevent : (Event.acts a m).Sound globals := ⟨hact, hm⟩
    cases hrun : a.run m with
    | ok b m₁ =>
      rw [endState_of_ok hrun] at hleft hlasts
      have hm₁ := hm.next (a.keeps.of_ok hrun) hleft
      have hrest := ih b (hnext m₁.store hlasts b (Act.answersIn hact hm hrun)) hm₁
      refine ⟨?_, ?_, fun c m' hc => hrest.answer c m' ?_⟩
      · rw [Plan.course, follow_of_ok hrun]
        exact List.forall_mem_cons.2 ⟨hevent, hrest.course⟩
      · rw [Plan.run, endState_bind_of_ok hrun]
        exact hrest.store
      · rwa [Plan.run, bind_of_ok hrun] at hc
    | error stop m₁ =>
      rw [endState_of_error hrun] at hleft
      refine ⟨?_, ?_, fun c m' hc => ?_⟩
      · rw [Plan.course, follow_of_error hrun]
        exact List.forall_mem_cons.2 ⟨hevent, by simp⟩
      · rwa [Plan.run, endState_bind_of_error hrun]
      · rw [Plan.run, bind_of_error hrun] at hc
        cases hc
  | begin setting t next ih =>
    obtain ⟨hsetting, htask, hnext⟩ := h
    have hfirst := htasks t (setting.enter m) (by simpa using htask) (hm.enter hsetting)
    have hworld : (endState (setting.run (t.run n)) m).store =
        (endState (t.run n) (setting.enter m)).store :=
      congrArg Prod.fst (setting.world_endState (t.run n) m)
    have hleft := hfirst.store
    have hlasts := t.persists n (setting.enter m)
    rw [← hworld] at hleft hlasts
    rw [Setting.enter_store] at hlasts
    cases hrun : setting.run (t.run n) m with
    | ok b m₁ =>
      obtain ⟨m₂, hb, hm₂⟩ := Setting.run_eq_ok.1 hrun
      rw [endState_of_ok hrun] at hleft hlasts
      have hm₁ := hm.next ((setting.keeps (t.keeps n)).of_ok hrun) hleft
      have hanswer : t.AnswersIn m₁.store b := by
        rw [hm₂, Setting.leave_store]
        exact hfirst.answer b m₂ hb
      have hrest := ih b (hnext m₁.store hlasts b hanswer) hm₁
      refine ⟨?_, ?_, fun c m' hc => hrest.answer c m' ?_⟩
      · rw [Plan.course, follow_of_ok hrun]
        exact List.forall_mem_append.2 ⟨hfirst.course, hrest.course⟩
      · rw [Plan.run, endState_bind_of_ok hrun]
        exact hrest.store
      · rwa [Plan.run, bind_of_ok hrun] at hc
    | error stop m₁ =>
      rw [endState_of_error hrun] at hleft
      refine ⟨?_, ?_, fun c m' hc => ?_⟩
      · rw [Plan.course, follow_of_error hrun, List.append_nil]
        exact hfirst.course
      · rwa [Plan.run, endState_bind_of_error hrun]
      · rw [Plan.run, bind_of_error hrun] at hc
        cases hc

/-- A task that is begun on a sound machine, with values that are there, finds sound machines
only, and leaves one. -/
theorem Task.endsSound (n : Nat) {t : Task} {m : Machine} (h : t.In m.store)
    (hm : m.Sound globals) :
    EndsSound globals (fun s => t.AnswersIn s) (t.run n) (t.course n m) m := by
  induction n generalizing t m with
  | zero =>
    have hleft := Act.sound_store (a := .spent t) h hm
    rw [← Act.endState_store] at hleft
    refine ⟨?_, hleft, fun b m' hb => Act.answersIn (a := .spent t) h hm hb⟩
    rw [course]
    have hfirst : (Event.begins 0 t m).Sound globals := ⟨h, hm⟩
    have hsecond : (Event.acts (.spent t) m).Sound globals := ⟨h, hm⟩
    exact List.forall_mem_cons.2 ⟨hfirst, List.forall_mem_cons.2 ⟨hsecond, by simp⟩⟩
  | succ n ih =>
    obtain ⟨hcourse, hleft, hanswer⟩ := Plan.endsSound (fun t m => ih) (in_plan h) hm
    rw [← run_succ] at hleft hanswer
    refine ⟨?_, hleft, hanswer⟩
    rw [course]
    have hfirst : (Event.begins (n + 1) t m).Sound globals := ⟨h, hm⟩
    exact List.forall_mem_cons.2 ⟨hfirst, hcourse⟩

/-! ## Programs and sessions -/

theorem Plan.in_statements (ss : List Stmt) (s : Store) :
    (Plan.statements ss).In (fun _ _ => True) s := by
  induction ss generalizing s with
  | nil => trivial
  | cons stmt ss ih => exact ⟨trivial, trivial, fun s' _ _ _ => ih s'⟩

/-- A program that is run on a sound machine finds sound machines only, and leaves one. -/
theorem Compiled.endsSound (budget : Nat) (c : Compiled) {m : Machine}
    (hm : m.Sound globals) :
    (∀ e ∈ c.course budget m, e.Sound globals) ∧
      (Session.runCompiled budget m c).2.Sound globals := by
  have hlearn : (m.learn c.locals).Sound globals := ⟨hm.store, hm.current_lt⟩
  have hends := Plan.endsSound (fun _ _ => Task.endsSound budget)
    (Plan.in_statements c.program.statements (m.learn c.locals).store) hlearn
  have hsteady := keeps_statements budget c.program.statements (m.learn c.locals)
  have hleft := hends.store
  rw [Plan.run_statements] at hleft
  rw [runCompiled_snd]
  exact ⟨hends.course, hlearn.next hsteady hleft⟩

/-- A session that begins on a sound machine finds sound machines only, and leaves one. -/
theorem Session.sound_course {budget : Nat} {session : Session} {sources : List String}
    (hm : session.machine.Sound globals) :
    (∀ e ∈ session.course budget sources, e.Sound globals) ∧
      (session.afterAll budget sources).machine.Sound globals := by
  induction sources generalizing session with
  | nil =>
    refine ⟨fun e he => ?_, hm⟩
    cases he
  | cons source sources ih =>
    rw [course]
    show _ ∧ ((session.step budget source).2.afterAll budget sources).machine.Sound globals
    cases hcompile : (compile session.supply source).result with
    | error errors =>
      rw [step_of_error hcompile]
      simpa [hcompile] using
        @ih ⟨session.machine, (compile session.supply source).supply⟩ hm
    | ok c =>
      obtain ⟨hfirst, hleft⟩ := c.endsSound budget hm
      rw [step_of_ok hcompile]
      obtain ⟨hlater, hlast⟩ := @ih ⟨(runCompiled budget session.machine c).2,
        (compile session.supply source).supply⟩ hleft
      exact ⟨List.forall_mem_append.2 ⟨hfirst, hlater⟩, hlast⟩

/-- The machine with which a session begins is sound. -/
theorem Machine.Sound.initial (limit : Nat) (output : Output) :
    (Machine.initial limit output).Sound (Machine.initial limit output).globals :=
  ⟨.initial limit output, Nat.zero_lt_one⟩

end

end Lox
