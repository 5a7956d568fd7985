import Lox.Proofs.Loop.Machines
import Lox.Proofs.Run.Course
import Lox.Proofs.Scope.Ready

/-!
# Both readings run alike

A task that is aligned on two machines does the same on both, step for step: it begins the same
tasks, which are aligned again, and does the same basic actions.  This is said of plans
(`Plan.Paired`), so that it is checked once for each clause of `Task.plan` (`Task.paired`), and
both readings are compared by induction on the plan: they end alike (`Plan.Paired.agrees`), and
each task that one of them begins is begun by the other (`Plan.Paired.begins`).
-/

namespace Lox

open Run

section

variable (known : Occurrence → Prop)

/-- What a task needs to find on two machines to do the same on both. -/
def Task.Aligned (m m' : Machine) : Task → Prop
  | .evaluate e => ∃ place, m.AlignedAt known m' place (e.occurrences place)
  | .evaluateAll es => ∃ place, m.AlignedAt known m' place (Expr.occurrencesAll place es)
  | .invoke callee arguments _ =>
    m.Shares known m' callee ∧ ∀ value ∈ arguments, m.Shares known m' value
  | .apply f arguments =>
    (∃ place, f.AlignedAt known m.globals m.store m'.store place) ∧
      ∀ value ∈ arguments, m.Shares known m' value
  | .execute s =>
    s.Orderly ∧ ∃ place, m.AlignedAt known m' place (s.occurrences place) ∧
      (s.isDeclaration → place.IsOutside)
  | .executeAll ss =>
    Stmt.OrderlyAll ss ∧ ∃ place, m.AlignedAt known m' place (Stmt.occurrencesAll place ss) ∧
      ∀ s ∈ ss, s.isDeclaration → place.IsOutside
  | .loop condition body =>
    (body.Orderly ∧ body.isDeclaration = false) ∧ ∃ place,
      m.AlignedAt known m' place (condition.occurrences place ++ body.occurrences place)
  | .instantiate .. => True
  | .make _ => True
  | .property .. => True

/-- What a statement may return does not tell the machines apart. -/
def Flow.Shared (m m' : Machine) : Flow → Prop
  | .normal => True
  | .return value => m.Shares known m' value

/-- What a task answers does not tell the machines apart. -/
def Task.AnswersShared : (t : Task) → Machine → Machine → t.Answer → Prop
  | .evaluate _, m, m', value => m.Shares known m' value
  | .evaluateAll _, m, m', values => ∀ value ∈ values, m.Shares known m' value
  | .invoke .., m, m', value => m.Shares known m' value
  | .apply .., m, m', value => m.Shares known m' value
  | .instantiate .., m, m', value => m.Shares known m' value
  | .make _, m, m', value => m.Shares known m' value
  | .property .., m, m', value => m.Shares known m' value
  | .execute _, m, m', flow => Flow.Shared known m m' flow
  | .executeAll _, m, m', flow => Flow.Shared known m m' flow
  | .loop .., m, m', flow => Flow.Shared known m m' flow

end

/-- Settings in which the two readings carry out the same task: they are of the same kind, or one
of them is the frame of a round. -/
inductive Setting.Pairs : Setting → Setting → Prop
  | here : Pairs .here .here
  | inFrame {frame frame'} : Pairs (.inFrame frame) (.inFrame frame')
  | round {frame} : Pairs (.inFrame frame) .here
  | inCall : Pairs .inCall .inCall

/-- Two plans do the same on two machines, which stay aligned. -/
inductive Plan.Paired (known : Occurrence → Prop) {α : Type}
    (answers : Machine → Machine → α → Prop) : Plan α → Plan α → Machine → Machine → Prop
  | answer {a m m'} : answers m m' a → Paired known answers (.answer a) (.answer a) m m'
  | act {a next next' m m'} {middle : Machine → Machine → a.Answer → Prop} :
      Agrees known middle (a.run m) (a.run m') →
      (∀ b m₁ m₁', a.run m = .ok b m₁ → a.run m' = .ok b m₁' → m₁.ReadAs known m₁' →
        middle m₁ m₁' b → Paired known answers (next b) (next' b) m₁ m₁') →
      Paired known answers (.act a next) (.act a next') m m'
  | begin {s s' t next next' m m'} :
      s.Pairs s' → m.ReadAs known m' → t.Aligned known (s.enter m) (s'.enter m') →
      (∀ b m₁ m₁', m.Steady m₁ → m'.Steady m₁' → m₁.ReadAs known m₁' →
        t.AnswersShared known m₁ m₁' b → Paired known answers (next b) (next' b) m₁ m₁') →
      Paired known answers (.begin s t next) (.begin s' t next') m m'

variable {known : Occurrence → Prop} {m m' m₁ m₁' : Machine} {α : Type}

/-! ## Settings -/

namespace Setting.Pairs

variable {s s' : Setting}

theorem enter (h : s.Pairs s') (hm : m.ReadAs known m') :
    (s.enter m).ReadAs known (s'.enter m') := by
  cases h with
  | here => exact hm
  | inFrame => exact hm.inFrame _ _
  | round => exact hm.inFrame _ _
  | inCall => exact { hm with callDepth := congrArg (· + 1) hm.callDepth, store := hm.store }

theorem leave (h : s.Pairs s') (hm : m₁.ReadAs known m₁') :
    (s.leave m m₁).ReadAs known (s'.leave m' m₁') := by
  cases h with
  | here => exact hm
  | inFrame => exact hm.inFrame _ _
  | round => exact hm.inFrame _ _
  | inCall => exact { hm with callDepth := congrArg (· - 1) hm.callDepth, store := hm.store }

end Setting.Pairs

theorem Machine.Shares.leave {value : Value} (h : m₁.Shares known m₁' value) (s s' : Setting) :
    (s.leave m m₁).Shares known (s'.leave m' m₁') value := by
  cases s <;> cases s' <;> exact h

theorem Flow.Shared.leave {flow : Flow} (h : flow.Shared known m₁ m₁') (s s' : Setting) :
    flow.Shared known (s.leave m m₁) (s'.leave m' m₁') := by
  cases flow with
  | normal => trivial
  | «return» value => exact Machine.Shares.leave h s s'

theorem Task.AnswersShared.leave {t : Task} {a : t.Answer}
    (h : t.AnswersShared known m₁ m₁' a) (s s' : Setting) :
    t.AnswersShared known (s.leave m m₁) (s'.leave m' m₁') a := by
  cases t with
  | evaluateAll es => exact fun value hvalue => Machine.Shares.leave (h value hvalue) s s'
  | execute stmt | executeAll ss | loop condition body => exact Flow.Shared.leave h s s'
  | _ => exact Machine.Shares.leave h s s'

/-! ## Paired plans -/

/-- With this budget, tasks that are aligned end alike. -/
def TasksAgree (known : Occurrence → Prop) (n : Nat) : Prop :=
  ∀ (t : Task) (m m' : Machine), m.ReadAs known m' → t.Aligned known m m' →
    Agrees known (t.AnswersShared known) (t.run n m) (t.direct n m')

theorem Agrees.of_ok {answers : Machine → Machine → α → Prop} {a : α}
    {o : EStateM.Result Stop Machine α} (h : Agrees known answers (.ok a m₁) o) :
    ∃ m₁', o = .ok a m₁' ∧ m₁.ReadAs known m₁' ∧ answers m₁ m₁' a := by
  cases h with
  | ok hm ha => exact ⟨_, rfl, hm, ha⟩

theorem TasksAgree.setting {n : Nat} (h : TasksAgree known n) {s s' : Setting} (hs : s.Pairs s')
    (hm : m.ReadAs known m') {t : Task} (ht : t.Aligned known (s.enter m) (s'.enter m')) :
    Agrees known (t.AnswersShared known) (s.run (t.run n) m) (s'.run (t.direct n) m') := by
  have hends := h t _ _ (hs.enter hm) ht
  generalize hrun : t.run n (s.enter m) = o at hends
  generalize hrun' : t.direct n (s'.enter m') = o' at hends
  cases hends with
  | ok hm₁ ha =>
    rw [s.run_of_ok hrun, s'.run_of_ok hrun']
    exact .ok (hs.leave hm₁) (ha.leave s s')
  | error hm₁ =>
    rw [s.run_of_error hrun, s'.run_of_error hrun']
    exact .error (hs.leave hm₁)

namespace Plan.Paired

variable {answers : Machine → Machine → α → Prop} {p p' : Plan α} {n : Nat}

/-- Paired plans end alike. -/
theorem agrees (h : Paired known answers p p' m m') (htasks : TasksAgree known n)
    (hm : m.ReadAs known m') :
    Agrees known answers (p.run n m) (p'.runWith (Task.direct n) m') := by
  induction h with
  | answer ha => exact .pure hm ha
  | act hagrees _ ih =>
    exact .bind hagrees fun b m₁ m₁' hrun hrun' hm₁ hb => ih b m₁ m₁' hrun hrun' hm₁ hb hm₁
  | @begin s s' t next next' m m' hs _ ht _ ih =>
    refine .bind (htasks.setting hs hm ht) fun b m₁ m₁' hrun hrun' hm₁ hb => ?_
    exact ih b m₁ m₁' ((s.keeps (t.keeps n)).of_ok hrun)
      ((s'.keeps (t.keeps_direct n)).of_ok hrun') hm₁ hb hm₁

/-- What one of two paired plans begins, the other one begins as well. -/
theorem begins (h : Paired known answers p p' m m') (htasks : TasksAgree known n) {t : Task}
    (hbegins : p.Begins n m t m₁) :
    ∃ m₁', p'.BeginsWith (Task.direct n) m' t m₁' ∧ m₁.ReadAs known m₁' ∧
      t.Aligned known m₁ m₁' := by
  induction h with
  | answer ha => cases hbegins
  | act hagrees _ ih =>
    cases hbegins with
    | act hrun hlater =>
      rw [hrun] at hagrees
      obtain ⟨m₂', hrun', hm₂, hb⟩ := hagrees.of_ok
      obtain ⟨m₁', hbegun, hm₁, ht⟩ := ih _ _ _ hrun hrun' hm₂ hb hlater
      exact ⟨m₁', .act hrun' hbegun, hm₁, ht⟩
  | @begin s s' t' next next' m m' hs hm ht' _ ih =>
    cases hbegins with
    | now => exact ⟨_, .now, hs.enter hm, ht'⟩
    | later hrun hlater =>
      have hagrees := htasks.setting hs hm ht'
      rw [hrun] at hagrees
      obtain ⟨m₂', hrun', hm₂, hb⟩ := hagrees.of_ok
      obtain ⟨m₁', hbegun, hm₁, ht⟩ := ih _ _ _ ((s.keeps (t'.keeps n)).of_ok hrun)
        ((s'.keeps (t'.keeps_direct n)).of_ok hrun') hm₂ hb hlater
      exact ⟨m₁', .later hrun' hbegun, hm₁, ht⟩

/-- Both stop with the same fault. -/
theorem refuse (hm : m.ReadAs known m') {fault : Store → RuntimeFault}
    (hfault : fault m'.store = fault m.store) {span : Span} {next next' : Value → Plan α} :
    Paired known answers (.act (.refuse fault span) next) (.act (.refuse fault span) next') m
      m' := by
  have hstop : Agrees known (fun _ _ _ => False) ((Act.refuse fault span).run m)
      ((Act.refuse fault span).run m') := by
    simp only [Act.run]
    rw [hfault]
    exact .error hm
  exact .act hstop fun _ _ _ _ _ _ hb => hb.elim

end Plan.Paired

/-! ## Expressions -/

/-- The plan of a task that is aligned is paired with its direct plan. -/
def Task.IsPaired (known : Occurrence → Prop) (t : Task) (m m' : Machine) : Prop :=
  t.Aligned known m m' → t.plan.Paired known (t.AnswersShared known) t.directPlan m m'

theorem Machine.Shares.ofConstant (c : Constant) : m.Shares known m' (.ofConstant c) := by
  cases c <;> trivial

theorem paired_evaluate (hm : m.ReadAs known m') (e : Expr) :
    Task.IsPaired known (.evaluate e) m m' := by
  rintro ⟨place, h⟩
  have here : (⟨e, place⟩ : Occurrence) ∈ e.occurrences place := e.mem_occurrences place
  cases e with
  | literal node value => exact .answer (.ofConstant value)
  | grouping node inner =>
    rw [Expr.occurrences] at h
    exact .begin .here hm ⟨place, h.left⟩ fun a m₁ m₁' _ _ _ ha => .answer ha
  | unary node op operand =>
    rw [Expr.occurrences] at h
    refine .begin .here hm ⟨place, h.left⟩ fun a m₁ m₁' _ _ hm₁ _ => ?_
    exact .act (.check hm₁ _ fun _ hvalue => op.apply_ne_function hvalue)
      fun b _ _ _ _ _ hb => .answer hb
  | binary node op left right opSpan =>
    rw [Expr.occurrences] at h
    refine .begin .here hm ⟨place, h.left.left⟩ fun a m₁ m₁' hs hs' hm₁ _ => ?_
    refine .begin .here hm₁ ⟨place, h.left.right.steady hs hs'⟩ fun b m₂ m₂' _ _ hm₂ _ => ?_
    exact .act (.check hm₂ _ fun _ hvalue => op.apply_ne_function hvalue)
      fun c _ _ _ _ _ hc => .answer hc
  | logical node op left right =>
    rw [Expr.occurrences] at h
    refine .begin .here hm ⟨place, h.left.left⟩ fun a m₁ m₁' hs hs' hm₁ ha => ?_
    split
    · exact .answer ha
    · exact .begin .here hm₁ ⟨place, h.left.right.steady hs hs'⟩
        fun b _ _ _ _ _ hb => .answer hb
  | «variable» node name =>
    exact .act (.lookUp hm h here rfl rfl) fun value _ _ _ _ _ hvalue => .answer hvalue
  | assign node name value =>
    have hvalue := h
    rw [Expr.occurrences] at hvalue
    refine .begin .here hm ⟨place, hvalue.left⟩ fun v m₁ m₁' hs hs' hm₁ hv => ?_
    refine .act (.assign hm₁ (h.steady hs hs') here rfl rfl hv) fun u m₂ m₂' hrun hrun' _ _ => ?_
    exact .answer (hv.steady ((keeps_assign _ _ _).of_ok hrun) ((keeps_assign _ _ _).of_ok hrun'))
  | call node callee arguments paren =>
    rw [Expr.occurrences] at h
    refine .begin .here hm ⟨place, h.left.left⟩ fun f m₁ m₁' hs hs' hm₁ hf => ?_
    refine .begin .here hm₁ ⟨place, h.left.right.steady hs hs'⟩
      fun values m₂ m₂' hs₂ hs₂' hm₂ hvalues => ?_
    exact .begin .here hm₂ ⟨hf.steady hs₂ hs₂', hvalues⟩ fun v _ _ _ _ _ hv => .answer hv
  | new node callee arguments paren =>
    rw [Expr.occurrences] at h
    refine .begin .here hm ⟨place, h.left.left⟩ fun c m₁ m₁' hs hs' hm₁ _ => ?_
    refine .begin .here hm₁ ⟨place, h.left.right.steady hs hs'⟩ fun values m₂ m₂' _ _ hm₂ _ => ?_
    exact .begin .here hm₂ trivial fun v _ _ _ _ _ hv => .answer hv
  | get node object name nameSpan =>
    rw [Expr.occurrences] at h
    refine .begin .here hm ⟨place, h.left⟩ fun o m₁ m₁' _ _ hm₁ _ => ?_
    exact .begin .here hm₁ trivial fun v _ _ _ _ _ hv => .answer hv
  | set node object name nameSpan value =>
    rw [Expr.occurrences] at h
    refine .begin .here hm ⟨place, h.left.right⟩ fun o m₁ m₁' hs hs' hm₁ _ => ?_
    cases o with
    | «instance» i =>
      refine .begin .here hm₁ ⟨place, h.left.left.steady hs hs'⟩ fun v m₂ m₂' _ _ hm₂ hv => ?_
      refine .act (.setField hm₂ i name hv) fun u m₃ m₃' hrun hrun' _ _ => ?_
      exact .answer (hv.steady ((Act.setField i name v).keeps.of_ok hrun)
        ((Act.setField i name v).keeps.of_ok hrun'))
    | _ => exact .refuse hm₁ rfl
  | this node =>
    exact .act (.lookUp hm h here rfl rfl) fun value _ _ _ _ _ hvalue => .answer hvalue

theorem paired_evaluateAll (hm : m.ReadAs known m') (es : List Expr) :
    Task.IsPaired known (.evaluateAll es) m m' := by
  rintro ⟨place, h⟩
  cases es with
  | nil => exact .answer fun value hvalue => by cases hvalue
  | cons e es =>
    rw [Expr.occurrencesAll] at h
    refine .begin .here hm ⟨place, h.left⟩ fun v m₁ m₁' hs hs' hm₁ hv => ?_
    refine .begin .here hm₁ ⟨place, h.right.steady hs hs'⟩ fun vs m₂ m₂' hs₂ hs₂' _ hvs => ?_
    exact .answer (List.forall_mem_cons.2 ⟨hv.steady hs₂ hs₂', hvs⟩)

/-! ## Calls and properties -/

theorem paired_invoke (hm : m.ReadAs known m') (callee : Value) (arguments : List Value)
    (paren : Span) : Task.IsPaired known (.invoke callee arguments paren) m m' := by
  rintro ⟨hcallee, harguments⟩
  cases callee with
  | function f =>
    refine .act (.checkCall hm _ _ _) fun u m₁ m₁' hrun hrun' hm₁ _ => ?_
    obtain ⟨-, -, rfl⟩ := checkCall_eq_ok.1 hrun
    obtain ⟨-, -, rfl⟩ := checkCall_eq_ok.1 hrun'
    exact .begin .inCall hm ⟨hcallee, harguments⟩ fun v _ _ _ _ _ hv => .answer hv
  | «class» c => exact .refuse hm (congrArg RuntimeFault.calledClass (hm.store.className_eq c))
  | _ => exact .refuse hm (congrArg RuntimeFault.notCallable (hm.store.display_eq _))

/-- The body of a function is aligned in its new frame. -/
theorem paired_apply (hm : m.ReadAs known m') (f : Closure) (arguments : List Value) :
    Task.IsPaired known (.apply f arguments) m m' := by
  rintro ⟨⟨place, hf⟩, harguments⟩
  have hfunction : (place.enter (.function f.decl)).IsOutside := rfl
  have hinside := (hf.aligned.enter rfl hm.store.size).bindAll hfunction f.decl.params
  refine .act (.openBody hm f harguments) fun frame m₁ m₁' hrun hrun' hm₁ _ => ?_
  injection hrun with hframe hm₁eq
  injection hrun' with hframe' hm₁eq'
  refine .begin .inFrame hm₁ ⟨hf.orderly.body, FunctionDecl.inside place f.decl, ⟨?_, ?_⟩, ?_⟩
    fun flow _ _ _ _ _ hflow => .answer ?_
  · subst hm₁eq hm₁eq' hframe
    have hgrown := hinside.grow (.defineAll _ m.store.frames.size f.decl.params arguments)
      (.defineAll _ m'.store.frames.size f.decl.params arguments)
    exact hgrown
  · rw [← FunctionDecl.occurrences_eq]
    exact hf.known
  · exact fun _ _ _ => hfunction.bindAll f.decl.params
  · cases flow with
    | normal => trivial
    | «return» value => exact hflow

theorem paired_instantiate (hm : m.ReadAs known m') (callee : Value) (arguments : List Value)
    (paren : Span) : Task.IsPaired known (.instantiate callee arguments paren) m m' := by
  intro _
  cases callee with
  | «class» c =>
    refine .act (.checkCall hm _ _ _) fun u m₁ m₁' _ _ hm₁ _ => ?_
    exact .begin .inCall hm₁ trivial fun v _ _ _ _ _ hv => .answer hv
  | _ => exact .refuse hm (congrArg RuntimeFault.notClass (hm.store.display_eq _))

theorem paired_make (hm : m.ReadAs known m') (c : ClassId) :
    Task.IsPaired known (.make c) m m' :=
  fun _ => .act (.addInstance hm c) fun _ _ _ _ _ _ hv => .answer hv

theorem paired_property (hm : m.ReadAs known m') (object : Value) (name : String)
    (nameSpan : Span) : Task.IsPaired known (.property object name nameSpan) m m' := by
  intro _
  cases object with
  | «instance» i =>
    refine .act (.readProperty hm i name) fun found m₁ m₁' _ _ hm₁ hfound => ?_
    cases found with
    | some value => exact .answer (hfound value rfl)
    | none => exact .refuse hm₁ rfl
  | _ => exact .refuse hm rfl

/-! ## Statements -/

/-- A block has a frame in both readings, except that of a round, which is read in the frame of
the loop. -/
theorem paired_block (hm : m.ReadAs known m') (body : List Stmt) (span : Span) :
    Task.IsPaired known (.execute (.block body span)) m m' := by
  rintro ⟨horderly, place, ⟨haligned, hknown⟩, -⟩
  rw [Stmt.Orderly] at horderly
  rw [Stmt.occurrences] at hknown
  by_cases hround : Stmt.isRound body
  · have hplan : (Task.execute (.block body span)).directPlan =
        .act .openBlock fun _ => .begin .here (.executeAll body) .answer := if_pos hround
    rw [hplan]
    refine .act (.openBlock hm) fun frame m₁ m₁' hrun hrun' hm₁ _ => ?_
    injection hrun with hframe hm₁eq
    injection hrun' with hframe' hm₁eq'
    refine .begin .round hm₁ ⟨horderly, place.enter (.block body), ⟨?_, hknown⟩, ?_⟩
      fun flow _ _ _ _ _ hflow => .answer hflow
    · subst hm₁eq hm₁eq' hframe
      exact haligned.enterRound hround (.addFrame _ _)
    · intro s hs hdeclaration
      rw [Stmt.isDeclaration_of_isRound hround s hs] at hdeclaration
      cases hdeclaration
  · have hplan : (Task.execute (.block body span)).directPlan =
        .act .openBlock fun frame => .begin (.inFrame frame) (.executeAll body) .answer :=
      if_neg hround
    have hscope : (Scope.block body).isRound = false := by simpa [Scope.isRound] using hround
    rw [hplan]
    refine .act (.openBlock hm) fun frame m₁ m₁' hrun hrun' hm₁ _ => ?_
    injection hrun with hframe hm₁eq
    injection hrun' with hframe' hm₁eq'
    refine .begin .inFrame hm₁ ⟨horderly, place.enter (.block body), ⟨?_, hknown⟩, ?_⟩
      fun flow _ _ _ _ _ hflow => .answer hflow
    · subst hm₁eq hm₁eq' hframe
      exact haligned.enter hscope hm.store.size
    · exact fun _ _ _ => hscope

theorem paired_execute (hm : m.ReadAs known m') (s : Stmt) :
    Task.IsPaired known (.execute s) m m' := by
  rintro ⟨horderly, place, h, houtside⟩
  cases s with
  | expression value span =>
    rw [Stmt.occurrences] at h
    exact .begin .here hm ⟨place, h⟩ fun v _ _ _ _ _ _ => .answer trivial
  | print value span =>
    rw [Stmt.occurrences] at h
    refine .begin .here hm ⟨place, h⟩ fun v m₁ m₁' _ _ hm₁ hv => ?_
    exact .act (.print hm₁ v span) fun _ _ _ _ _ _ _ => .answer trivial
  | var name initializer span =>
    have hhere : place.IsOutside := houtside rfl
    rw [Stmt.occurrences] at h
    cases initializer with
    | none =>
      refine .act (.define hm (h.1.eq_of_isOutside hhere) name trivial)
        fun _ _ _ _ _ _ _ => .answer trivial
    | some initializer =>
      refine .begin .here hm ⟨place.bind name false, h.1.bind hhere name false, h.2⟩
        fun v m₁ m₁' hs hs' hm₁ hv => ?_
      have hcurrent := (h.steady hs hs').1.eq_of_isOutside hhere
      refine .act (.define hm₁ hcurrent name (hv.grow (.define _ _ _ _) (.define _ _ _ _)))
        fun _ _ _ _ _ _ _ => .answer trivial
  | block body span => exact paired_block hm body span ⟨horderly, place, h, houtside⟩
  | ifElse condition thenBranch elseBranch span =>
    cases elseBranch with
    | none =>
      rw [Stmt.Orderly] at horderly
      rw [Stmt.occurrences] at h
      refine .begin .here hm ⟨place, h.left⟩ fun v m₁ m₁' hs hs' hm₁ hv => ?_
      split
      · refine .begin .here hm₁ ⟨horderly.1, place, h.right.steady hs hs', ?_⟩
          fun flow _ _ _ _ _ hflow => .answer hflow
        rw [horderly.2]
        exact fun hdeclaration => by cases hdeclaration
      · exact .answer trivial
    | some elseBranch =>
      rw [Stmt.Orderly] at horderly
      rw [Stmt.occurrences, Stmt.leave_of_not_declaration horderly.1.1 horderly.1.2] at h
      refine .begin .here hm ⟨place, h.left.left⟩ fun v m₁ m₁' hs hs' hm₁ hv => ?_
      split
      · refine .begin .here hm₁ ⟨horderly.1.1, place, h.left.right.steady hs hs', ?_⟩
          fun flow _ _ _ _ _ hflow => .answer hflow
        rw [horderly.1.2]
        exact fun hdeclaration => by cases hdeclaration
      · refine .begin .here hm₁ ⟨horderly.2.1, place, h.right.steady hs hs', ?_⟩
          fun flow _ _ _ _ _ hflow => .answer hflow
        rw [horderly.2.2]
        exact fun hdeclaration => by cases hdeclaration
  | «while» condition body span =>
    rw [Stmt.Orderly] at horderly
    rw [Stmt.occurrences] at h
    exact .begin .here hm ⟨horderly, place, h⟩ fun flow _ _ _ _ _ hflow => .answer hflow
  | function decl span =>
    rw [Stmt.Orderly] at horderly
    have hknown := h.2
    rw [Stmt.occurrences] at hknown
    exact .act (.defineFunction hm h (houtside rfl) hknown horderly.2)
      fun _ _ _ _ _ _ _ => .answer trivial
  | «class» name methods span =>
    rw [Stmt.Orderly] at horderly
    have hknown := h.2
    rw [Stmt.occurrences] at hknown
    exact .act (.defineClass hm h (houtside rfl) hknown horderly.2)
      fun _ _ _ _ _ _ _ => .answer trivial
  | «return» value span =>
    rw [Stmt.occurrences] at h
    cases value with
    | none => exact .answer trivial
    | some value => exact .begin .here hm ⟨place, h⟩ fun v _ _ _ _ _ hv => .answer hv

theorem paired_executeAll (hm : m.ReadAs known m') (ss : List Stmt) :
    Task.IsPaired known (.executeAll ss) m m' := by
  rintro ⟨horderly, place, h, houtside⟩
  cases ss with
  | nil => exact .answer trivial
  | cons s ss =>
    rw [Stmt.OrderlyAll] at horderly
    rw [Stmt.occurrencesAll] at h
    have hfirst := houtside s (List.mem_cons_self ..)
    refine .begin .here hm ⟨horderly.1, place, h.left, hfirst⟩
      fun flow m₁ m₁' hs hs' hm₁ hflow => ?_
    cases flow with
    | normal =>
      have hrest : m.AlignedAt known m' (s.leave place) (Stmt.occurrencesAll (s.leave place) ss) :=
        ⟨h.1.leave horderly.1 hfirst, h.right.2⟩
      refine .begin .here hm₁ ⟨horderly.2, s.leave place, hrest.steady hs hs', ?_⟩
        fun flow _ _ _ _ _ hflow => .answer hflow
      intro s' hs' hdeclaration
      exact (houtside s' (List.mem_cons_of_mem _ hs') hdeclaration).leave s
    | «return» value => exact .answer hflow

theorem paired_loop (hm : m.ReadAs known m') (condition : Expr) (body : Stmt) :
    Task.IsPaired known (.loop condition body) m m' := by
  rintro ⟨horderly, place, h⟩
  refine .begin .here hm ⟨place, h.left⟩ fun v m₁ m₁' hs hs' hm₁ _ => ?_
  split
  · have hbody : body.isDeclaration → place.IsOutside := by
      rw [horderly.2]
      exact fun hdeclaration => by cases hdeclaration
    refine .begin .here hm₁ ⟨horderly.1, place, h.right.steady hs hs', hbody⟩
      fun flow m₂ m₂' hs₂ hs₂' hm₂ hflow => ?_
    cases flow with
    | normal =>
      exact .begin .here hm₂ ⟨horderly, place, (h.steady hs hs').steady hs₂ hs₂'⟩
        fun flow _ _ _ _ _ hflow => .answer hflow
    | «return» value => exact .answer hflow
  · exact .answer trivial

/-- **A task that is aligned does the same in both readings.** -/
theorem Task.paired (hm : m.ReadAs known m') (t : Task) : t.IsPaired known m m' := by
  cases t with
  | evaluate e => exact paired_evaluate hm e
  | evaluateAll es => exact paired_evaluateAll hm es
  | invoke callee arguments paren => exact paired_invoke hm callee arguments paren
  | apply f arguments => exact paired_apply hm f arguments
  | instantiate callee arguments paren => exact paired_instantiate hm callee arguments paren
  | make c => exact paired_make hm c
  | property object name nameSpan => exact paired_property hm object name nameSpan
  | execute s => exact paired_execute hm s
  | executeAll ss => exact paired_executeAll hm ss
  | loop condition body => exact paired_loop hm condition body

/-! ## Tasks -/

/-- A task without budget ends alike. -/
theorem agrees_spent (hm : m.ReadAs known m') (t : Task) :
    Agrees known (t.AnswersShared known) (t.run 0 m) (t.direct 0 m') := by
  rw [Task.direct_zero]
  cases t with
  | instantiate callee arguments paren =>
    cases callee with
    | «class» c =>
      obtain ⟨hnumber, hstore⟩ := hm.store.addInstance c
      rw [Task.run, instantiate_class_apply, instantiate_class_apply, hm.maxCallDepth,
        hm.callDepth, hnumber]
      split
      · exact .error hm
      · split
        · exact .error hm
        · exact .ok { hm.withStore hstore with callDepth := rfl, maxCallDepth := rfl } trivial
    | _ =>
      refine .get_bind ?_
      rw [hm.store.display_eq]
      exact .fail hm _ _
  | make c => exact .addInstance hm c
  | property object name nameSpan =>
    cases object with
    | «instance» i =>
      obtain ⟨hfound, hstore, hshared⟩ := hm.store.property i name
      rw [Task.run, property_instance_apply, property_instance_apply, hfound]
      dsimp only
      split
      · next value hvalue => exact .ok (hm.withStore hstore) (hshared value hvalue)
      · exact .error (hm.withStore hstore)
    | _ => exact .error hm
  | _ => exact .error hm

/-- **Tasks that are aligned end alike** in both readings, with any budget. -/
theorem tasksAgree (known : Occurrence → Prop) (n : Nat) : TasksAgree known n := by
  induction n with
  | zero => exact fun t m m' hm _ => agrees_spent hm t
  | succ n ih =>
    intro t m m' hm ht
    rw [Task.run_succ, Task.direct_succ]
    exact (Task.paired hm t ht).agrees ih hm

/-- What a task begins by its tree, it begins read directly. -/
theorem Enters.directly {n : Nat} {t t₁ : Task} (h : Enters n t m t₁ m₁)
    (hm : m.ReadAs known m') (ht : t.Aligned known m m') :
    ∃ m₁', t.directPlan.BeginsWith (Task.direct n) m' t₁ m₁' ∧ m₁.ReadAs known m₁' ∧
      t₁.Aligned known m₁ m₁' :=
  (Task.paired hm t ht).begins (tasksAgree known n) (enters_iff.1 h)

/-- What a task begins at any depth by its tree, it begins read directly. -/
theorem Reaches.directly {n k : Nat} {t t₁ : Task} (h : Reaches n t m k t₁ m₁)
    (hm : m.ReadAs known m') (ht : t.Aligned known m m') :
    ∃ m₁', DirectlyReaches n t m' k t₁ m₁' ∧ m₁.ReadAs known m₁' ∧ t₁.Aligned known m₁ m₁' := by
  induction h with
  | refl => exact ⟨m', .refl, hm, ht⟩
  | step _ hlast ih =>
    obtain ⟨m₂', hreach, hm₂, ht₂⟩ := ih
    obtain ⟨m₁', hbegins, hm₁, ht₁⟩ := hlast.directly hm₂ ht₂
    exact ⟨m₁', .step hreach hbegins, hm₁, ht₁⟩

end Lox
