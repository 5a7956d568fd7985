import Lox.Proofs.Run.Code

/-!
# A function is declared once in a frame

The same function statement may be executed many times, but never twice in one frame.  A frame
is made for one execution of one list of statements; such a list declares each of its functions
once; and a branch or the body of a loop is no declaration, so that whatever it declares is
declared in frames of its own.

**Frames of a task.** In the course of a task, functions are declared in the current frame,
once each and only those that stand directly in the statements of the task, and in frames that
were made since it was begun (`Scattered`).  Plans keep this: `Plan.Declares` lists what the
tasks of a plan declare in the current frame, and every task has such a plan (`Task.declares`).
-/

namespace Lox

open Run

/-! ## Declarations -/

/-- The number of the function that the statement declares in the frame in which it is
executed. -/
def Stmt.ownFunctions : Stmt → List Nat
  | .function f _ => [f.number]
  | _ => []

/-- The numbers of the functions that the statements declare in the frame in which they are
executed. -/
def Stmt.ownFunctionsAll (ss : List Stmt) : List Nat := ss.flatMap Stmt.ownFunctions

/-- The numbers of the functions that the task declares in the frame in which it is begun. -/
def Task.ownFunctions : Task → List Nat
  | execute s => s.ownFunctions
  | executeAll ss => Stmt.ownFunctionsAll ss
  | _ => []

/-- The number of the function that is declared, and the frame. -/
def Event.declared? : Event → Option (Nat × FrameId)
  | .acts (.defineFunction f) m => some (f.number, m.current)
  | _ => none

/-- The functions that are declared in some events, in order, each with the frame. -/
def declarations (es : List Event) : List (Nat × FrameId) := es.filterMap Event.declared?

@[simp] theorem declarations_nil : declarations [] = [] := rfl

@[simp] theorem declarations_append (es es' : List Event) :
    declarations (es ++ es') = declarations es ++ declarations es' := List.filterMap_append

theorem declarations_cons_of_none {e : Event} (h : e.declared? = none) (es : List Event) :
    declarations (e :: es) = declarations es := List.filterMap_cons_none h

theorem Act.declared?_eq_none {a : Act} (h : ∀ f, a ≠ .defineFunction f) (m : Machine) :
    (Event.acts a m).declared? = none := by
  cases a with
  | defineFunction f => exact absurd rfl (h f)
  | _ => rfl

/-- No function is declared twice in a frame.  Some functions are declared in the frame `e`, and
all others in frames from `lo` up to `hi`. -/
structure Scattered (own : Nat → Prop) (e lo hi : FrameId) (ds : List (Nat × FrameId)) : Prop where
  /-- Nothing is declared twice. -/
  nodup : ds.Nodup
  /-- Where things are declared. -/
  placed : ∀ d ∈ ds, (own d.1 ∧ d.2 = e) ∨ (lo ≤ d.2 ∧ d.2 < hi)

namespace Scattered

variable {own own' : Nat → Prop} {e lo mid hi : FrameId} {ds ds' : List (Nat × FrameId)}

theorem nil : Scattered own e lo hi [] := ⟨List.nodup_nil, by simp⟩

theorem mono (h : Scattered own e mid hi ds) (hown : ∀ i, own i → own' i) (hlo : lo ≤ mid) :
    Scattered own' e lo hi ds where
  nodup := h.nodup
  placed d hd := by
    rcases h.placed d hd with ⟨hi, he⟩ | ⟨hle, hlt⟩
    · exact .inl ⟨hown _ hi, he⟩
    · exact .inr ⟨Nat.le_trans hlo hle, hlt⟩

/-- What is declared later is declared in other frames, or other functions are. -/
theorem append (h : Scattered own e lo mid ds) (h' : Scattered own' e mid hi ds') (he : e < lo)
    (hlo : lo ≤ mid) (hhi : mid ≤ hi) (hother : ∀ i, own i → ¬ own' i) :
    Scattered (fun i => own i ∨ own' i) e lo hi (ds ++ ds') where
  nodup := by
    refine List.nodup_append.2 ⟨h.nodup, h'.nodup, fun d hd d' hd' => ?_⟩
    rintro rfl
    rcases h.placed d hd with ⟨hi, hplace⟩ | ⟨hle, hlt⟩
    · rcases h'.placed d hd' with ⟨hi', -⟩ | ⟨hle', -⟩
      · exact hother _ hi hi'
      · exact Nat.not_le_of_lt (hplace ▸ he) (Nat.le_trans hlo hle')
    · rcases h'.placed d hd' with ⟨-, hplace'⟩ | ⟨hle', -⟩
      · exact Nat.not_le_of_lt (hplace' ▸ he) hle
      · exact Nat.not_le_of_lt hlt hle'
  placed d hd := by
    rcases List.mem_append.1 hd with hd | hd
    · rcases h.placed d hd with ⟨hi, hplace⟩ | ⟨hle, hlt⟩
      · exact .inl ⟨.inl hi, hplace⟩
      · exact .inr ⟨hle, Nat.lt_of_lt_of_le hlt hhi⟩
    · rcases h'.placed d hd with ⟨hi, hplace⟩ | ⟨hle, hlt⟩
      · exact .inl ⟨.inr hi, hplace⟩
      · exact .inr ⟨Nat.le_trans hlo hle, hlt⟩

/-- What is declared in a frame that was just made is declared in a new one. -/
theorem inside (h : Scattered own lo (lo + 1) hi ds) (hhi : lo < hi) :
    Scattered (fun _ => False) e lo hi ds where
  nodup := h.nodup
  placed d hd := by
    rcases h.placed d hd with ⟨-, hplace⟩ | ⟨hle, hlt⟩
    · exact .inr ⟨Nat.le_of_eq hplace.symm, hplace ▸ hhi⟩
    · exact .inr ⟨Nat.le_of_succ_le hle, hlt⟩

end Scattered

/-! ## Plans -/

/-- The plan declares no more than these functions in the frame in which it is begun, each of
them once, and what it begins in a new frame declares no function twice. -/
inductive Plan.Declares {α : Type} : List Nat → Plan α → Prop
  | answer {own a} : Declares own (.answer a)
  | act {own a next} :
      (∀ f, a ≠ .defineFunction f) → (∀ b, Declares own (next b)) → Declares own (.act a next)
  | function {f next} :
      (∀ b, Declares [] (next b)) → Declares [f.number] (.act (.defineFunction f) next)
  | begin {own s t next} :
      (∀ frame, s ≠ .inFrame frame) → (∀ b, Declares own (next b)) →
      Declares (t.ownFunctions ++ own) (.begin s t next)
  | block {own t next} :
      t.ownFunctions.Nodup → (∀ b, Declares own (next b)) →
      Declares own (.act .openBlock fun frame => .begin (.inFrame frame) t next)
  | body {own f arguments t next} :
      t.ownFunctions.Nodup → (∀ b, Declares own (next b)) →
      Declares own (.act (.openBody f arguments) fun frame => .begin (.inFrame frame) t next)

namespace Plan.Declares

variable {α : Type} {own : List Nat} {s : Setting} {t : Task} {next : t.Answer → Plan α}

/-- A task that declares nothing by itself. -/
theorem quiet (ht : t.ownFunctions = []) (hs : ∀ frame, s ≠ .inFrame frame)
    (hnext : ∀ b, Declares own (next b)) : Declares own (.begin s t next) := by
  have h := begin (t := t) hs hnext
  rwa [ht, List.nil_append] at h

/-- The last task of a plan. -/
theorem last (hs : ∀ frame, s ≠ .inFrame frame) (hnext : ∀ b, Declares [] (next b)) :
    Declares t.ownFunctions (.begin s t next) := by
  have h := begin (t := t) hs hnext
  rwa [List.append_nil] at h

end Plan.Declares

/-- What the code declares: no branch and no body of a loop is a function statement, and no list
of statements declares a function twice. -/
structure Code.Tidy (code : Code) : Prop where
  /-- Function statements are no first branches. -/
  thenBranch : ∀ {condition branch other span},
    code.stmt (.ifElse condition branch other span) → branch.ownFunctions = []
  /-- Function statements are no second branches. -/
  elseBranch : ∀ {condition other branch span},
    code.stmt (.ifElse condition other (some branch) span) → branch.ownFunctions = []
  /-- Function statements are no bodies of loops. -/
  loop : ∀ {condition body span}, code.stmt (.while condition body span) → body.ownFunctions = []
  /-- Blocks declare a function once. -/
  block : ∀ {body span}, code.stmt (.block body span) → (Stmt.ownFunctionsAll body).Nodup
  /-- Bodies of functions declare a function once. -/
  body : ∀ {f}, code.closure f → (Stmt.ownFunctionsAll f.decl.body).Nodup

variable {code : Code}

/-- To evaluate an expression declares nothing in the current frame. -/
theorem Expr.declares (e : Expr) : (Task.evaluate e).plan.Declares [] := by
  have here : ∀ frame, Setting.here ≠ .inFrame frame := by simp
  cases e with
  | literal node value => exact .answer
  | grouping node inner => exact .quiet rfl here fun _ => .answer
  | unary node op operand =>
    exact .quiet rfl here fun _ => .act (by simp) fun _ => .answer
  | binary node op left right opSpan =>
    exact .quiet rfl here fun _ => .quiet rfl here fun _ => .act (by simp) fun _ => .answer
  | logical node op left right =>
    refine .quiet rfl here fun a => ?_
    split
    · exact .answer
    · exact .quiet rfl here fun _ => .answer
  | «variable» node name => exact .act (by simp) fun _ => .answer
  | assign node name value => exact .quiet rfl here fun _ => .act (by simp) fun _ => .answer
  | call node callee arguments paren | new node callee arguments paren =>
    exact .quiet rfl here fun _ => .quiet rfl here fun _ => .quiet rfl here fun _ => .answer
  | get node object name nameSpan =>
    exact .quiet rfl here fun _ => .quiet rfl here fun _ => .answer
  | set node object name nameSpan value =>
    refine .quiet rfl here fun o => ?_
    cases o with
    | «instance» i => exact .quiet rfl here fun _ => .act (by simp) fun _ => .answer
    | _ => exact .act (by simp) fun _ => .answer
  | this node => exact .act (by simp) fun _ => .answer

/-- To execute a statement declares no more than the function of a function statement in the
current frame. -/
theorem Stmt.declares (htidy : code.Tidy) {s : Stmt} (h : code.stmt s) :
    (Task.execute s).plan.Declares s.ownFunctions := by
  have here : ∀ frame, Setting.here ≠ .inFrame frame := by simp
  cases s with
  | expression value span => exact .quiet rfl here fun _ => .answer
  | print value span => exact .quiet rfl here fun _ => .act (by simp) fun _ => .answer
  | var name initializer span =>
    cases initializer with
    | none => exact .act (by simp) fun _ => .answer
    | some initializer => exact .quiet rfl here fun _ => .act (by simp) fun _ => .answer
  | block body span => exact .block (htidy.block h) fun _ => .answer
  | ifElse condition thenBranch elseBranch span =>
    refine .quiet rfl here fun v => ?_
    split
    · exact .quiet (htidy.thenBranch h) here fun _ => .answer
    · cases elseBranch with
      | none => exact .answer
      | some branch => exact .quiet (htidy.elseBranch h) here fun _ => .answer
  | «while» condition body span => exact .quiet rfl here fun _ => .answer
  | function f span => exact .function fun _ => .answer
  | «class» name methods span => exact .act (by simp) fun _ => .answer
  | «return» value span =>
    cases value with
    | none => exact .answer
    | some value => exact .quiet rfl here fun _ => .answer

/-- A task declares no more than its own functions in the current frame. -/
theorem Task.declares (htidy : code.Tidy) {t : Task} (h : t.From code) :
    t.plan.Declares t.ownFunctions := by
  have here : ∀ frame, Setting.here ≠ .inFrame frame := by simp
  have inCall : ∀ frame, Setting.inCall ≠ .inFrame frame := by simp
  cases t with
  | evaluate e => exact e.declares
  | evaluateAll es =>
    cases es with
    | nil => exact .answer
    | cons e es => exact .quiet rfl here fun _ => .quiet rfl here fun _ => .answer
  | invoke callee arguments paren =>
    cases callee with
    | function f => exact .act (by simp) fun _ => .quiet rfl inCall fun _ => .answer
    | _ => exact .act (by simp) fun _ => .answer
  | apply f arguments => exact .body (htidy.body h.1) fun _ => .answer
  | instantiate callee arguments paren =>
    cases callee with
    | «class» c => exact .act (by simp) fun _ => .quiet rfl inCall fun _ => .answer
    | _ => exact .act (by simp) fun _ => .answer
  | make c => exact .act (by simp) fun _ => .answer
  | property object name nameSpan =>
    cases object with
    | «instance» i =>
      refine .act (by simp) fun found => ?_
      cases found with
      | none => exact .act (by simp) fun _ => .answer
      | some value => exact .answer
    | _ => exact .act (by simp) fun _ => .answer
  | execute s => exact Stmt.declares htidy h
  | executeAll ss =>
    cases ss with
    | nil => exact .answer
    | cons s ss =>
      have hown : (executeAll (s :: ss)).ownFunctions =
          (execute s).ownFunctions ++ (executeAll ss).ownFunctions := rfl
      rw [hown]
      refine .begin here fun flow => ?_
      cases flow with
      | normal => exact .last here fun _ => .answer
      | «return» v => exact .answer
  | loop condition body =>
    obtain ⟨span, h⟩ := h
    refine .quiet rfl here fun v => ?_
    split
    · refine .quiet (htidy.loop h) here fun flow => ?_
      cases flow with
      | normal => exact .quiet rfl here fun _ => .answer
      | «return» v => exact .answer
    · exact .answer

/-! ## Courses -/

/-- In the course of an action that ends in the machine `m'`, functions are declared in the
current frame and in new frames only, and no function twice in a frame. -/
def Declared (own : List Nat) (es : List Event) (m m' : Machine) : Prop :=
  Scattered (· ∈ own) m.current m.store.frames.size m'.store.frames.size (declarations es)

section

variable {n : Nat} {α : Type} {own : List Nat} {t : Task} {next : t.Answer → Plan α} {m : Machine}
  (htasks : ∀ (t : Task) (m : Machine), t.ownFunctions.Nodup →
    m.current < m.store.frames.size → (∀ e ∈ t.course n m, e.From code) →
    Declared t.ownFunctions (t.course n m) m (endState (t.run n) m))
  (hnext : ∀ b (m : Machine), m.current < m.store.frames.size →
    (∀ e ∈ (next b).course n (fun t m => t.course n m) m, e.From code) →
    Declared own ((next b).course n (fun t m => t.course n m) m) m
      (endState ((next b).run n) m))

include htasks hnext

/-- What is begun in a frame that was just made declares functions in new frames only. -/
theorem Plan.declared_inFrame {frame : FrameId} (ht : t.ownFunctions.Nodup)
    (hcurrent : m.current < frame) (hframe : frame < m.store.frames.size)
    (hfrom : ∀ e ∈ (Plan.begin (.inFrame frame) t next).course n (fun t m => t.course n m) m,
      e.From code) :
    Scattered (· ∈ own) m.current frame
      (endState ((Plan.begin (.inFrame frame) t next).run n) m).store.frames.size
      (declarations ((Plan.begin (.inFrame frame) t next).course n
        (fun t m => t.course n m) m)) := by
  rw [Plan.course] at hfrom ⊢
  obtain ⟨hnow, hlater⟩ := List.forall_mem_append.1 hfrom
  have htask := htasks t _ ht hframe hnow
  have hsteady := (Setting.inFrame frame).keeps (Task.keeps n t) m
  have hworld : (endState ((Setting.inFrame frame).run (t.run n)) m).store =
      (endState (t.run n) ((Setting.inFrame frame).enter m)).store :=
    congrArg Prod.fst ((Setting.inFrame frame).world_endState (t.run n) m)
  rw [Declared, ← hworld] at htask
  have hsize := Nat.lt_of_lt_of_le hframe hsteady.store.size_le
  have hinside : Scattered (fun _ => False) m.current frame _ _ :=
    (htask.mono (fun _ hi => hi) hframe).inside hsize
  rw [declarations_append]
  cases hrun : (Setting.inFrame frame).run (t.run n) m with
  | ok b m₁ =>
    rw [endState_of_ok hrun] at hsteady hinside hsize
    rw [follow_of_ok hrun] at hlater ⊢
    rw [Plan.run, endState_bind_of_ok hrun]
    have hlt : m₁.current < m₁.store.frames.size :=
      hsteady.current ▸ Nat.lt_trans hcurrent hsize
    have hrest := hnext b m₁ hlt hlater
    rw [Declared, hsteady.current] at hrest
    have hle := ((next b).keeps (Task.keeps n) m₁).store.size_le
    exact (hinside.append hrest hcurrent (Nat.le_of_lt hsize) hle fun _ hi => hi.elim).mono
      (fun i hi => hi.elim False.elim id) (Nat.le_refl _)
  | error stop m₁ =>
    rw [endState_of_error hrun] at hinside
    rw [follow_of_error hrun, declarations_nil, List.append_nil, Plan.run,
      endState_bind_of_error hrun]
    exact hinside.mono (fun _ hi => hi.elim) (Nat.le_refl _)

/-- What is begun in the current frame declares its own functions there, and what follows
declares other ones. -/
theorem Plan.declared_begin {s : Setting} (hs : ∀ frame, s ≠ .inFrame frame)
    (hown : (t.ownFunctions ++ own).Nodup) (hcurrent : m.current < m.store.frames.size)
    (hfrom : ∀ e ∈ (Plan.begin s t next).course n (fun t m => t.course n m) m, e.From code) :
    Declared (t.ownFunctions ++ own)
      ((Plan.begin s t next).course n (fun t m => t.course n m) m) m
      (endState ((Plan.begin s t next).run n) m) := by
  obtain ⟨hfirst, -, hother⟩ := List.nodup_append.1 hown
  have henter : (s.enter m).current = m.current := by
    cases s with
    | inFrame frame => exact absurd rfl (hs frame)
    | _ => rfl
  rw [Plan.course] at hfrom ⊢
  obtain ⟨hnow, hlater⟩ := List.forall_mem_append.1 hfrom
  have htask := htasks t (s.enter m) hfirst (by simpa [henter] using hcurrent) hnow
  rw [Declared, henter, Setting.enter_store] at htask
  have hsteady := s.keeps (Task.keeps n t) m
  have hworld : (endState (s.run (t.run n)) m).store = (endState (t.run n) (s.enter m)).store :=
    congrArg Prod.fst (s.world_endState (t.run n) m)
  rw [← hworld] at htask
  rw [Declared, declarations_append]
  cases hrun : s.run (t.run n) m with
  | ok b m₁ =>
    rw [endState_of_ok hrun] at hsteady htask
    rw [follow_of_ok hrun] at hlater ⊢
    rw [Plan.run, endState_bind_of_ok hrun]
    have hle := hsteady.store.size_le
    have hrest := hnext b m₁ (hsteady.current ▸ Nat.lt_of_lt_of_le hcurrent hle) hlater
    rw [Declared, hsteady.current] at hrest
    have hle' := ((next b).keeps (Task.keeps n) m₁).store.size_le
    exact (htask.append hrest hcurrent hle hle' fun i hi hi' => hother i hi i hi' rfl).mono
      (fun i hi => List.mem_append.2 hi) (Nat.le_refl _)
  | error stop m₁ =>
    rw [endState_of_error hrun] at htask
    rw [follow_of_error hrun, declarations_nil, List.append_nil, Plan.run,
      endState_bind_of_error hrun]
    exact htask.mono (fun i hi => List.mem_append_left _ hi) (Nat.le_refl _)

end

/-- A function statement declares its function, if what follows declares none in the current
frame. -/
theorem Plan.declared_function {n : Nat} {α : Type} {f : FunctionDecl}
    {next : (Act.defineFunction f).Answer → Plan α} {m : Machine}
    (hnext : ∀ m : Machine, m.current < m.store.frames.size →
      (∀ e ∈ (next ()).course n (fun t m => t.course n m) m, e.From code) →
      Declared [] ((next ()).course n (fun t m => t.course n m) m) m
        (endState ((next ()).run n) m))
    (hcurrent : m.current < m.store.frames.size)
    (hfrom : ∀ e ∈ (Plan.act (.defineFunction f) next).course n (fun t m => t.course n m) m,
      e.From code) :
    Declared [f.number]
      ((Plan.act (.defineFunction f) next).course n (fun t m => t.course n m) m) m
      (endState ((Plan.act (.defineFunction f) next).run n) m) := by
  have hsteady := (Act.defineFunction f).keeps m
  rw [Plan.course] at hfrom ⊢
  have hrun : (Act.defineFunction f).run m =
      .ok () { m with store := (Act.defineFunction f).store m } := rfl
  rw [endState_of_ok hrun] at hsteady
  rw [follow_of_ok hrun] at hfrom ⊢
  rw [Plan.run, endState_bind_of_ok hrun]
  have hle := hsteady.store.size_le
  have hrest := hnext { m with store := (Act.defineFunction f).store m }
    (Nat.lt_of_lt_of_le hcurrent hle) (List.forall_mem_cons.1 hfrom).2
  have hlater : Scattered (fun _ => False) m.current m.store.frames.size _ _ :=
    Scattered.mono hrest (fun _ hi => by cases hi) hle
  refine ⟨List.nodup_cons.2 ⟨fun hd => ?_, hrest.nodup⟩, List.forall_mem_cons.2 ⟨?_, ?_⟩⟩
  · rcases hlater.placed _ hd with ⟨hi, -⟩ | ⟨hle, -⟩
    · exact hi
    · exact Nat.not_le_of_lt hcurrent hle
  · exact .inl ⟨List.mem_singleton.2 rfl, rfl⟩
  · exact (hlater.mono (fun _ hi => hi.elim) (Nat.le_refl _)).placed

/-- A plan declares its own functions in the current frame, and others in new frames, none of
them twice in a frame. -/
theorem Plan.declared {n : Nat} {α : Type} {own : List Nat} {p : Plan α} {m : Machine}
    (htasks : ∀ (t : Task) (m : Machine), t.ownFunctions.Nodup →
      m.current < m.store.frames.size → (∀ e ∈ t.course n m, e.From code) →
      Declared t.ownFunctions (t.course n m) m (endState (t.run n) m))
    (h : p.Declares own) (hown : own.Nodup) (hcurrent : m.current < m.store.frames.size)
    (hfrom : ∀ e ∈ p.course n (fun t m => t.course n m) m, e.From code) :
    Declared own (p.course n (fun t m => t.course n m) m) m (endState (p.run n) m) := by
  induction h generalizing m with
  | answer => exact .nil
  | @act own a next ha _ ih =>
    have hsteady := a.keeps m
    rw [Plan.course] at hfrom ⊢
    rw [Declared, declarations_cons_of_none (Act.declared?_eq_none ha m)]
    cases hrun : a.run m with
    | ok b m₁ =>
      rw [endState_of_ok hrun] at hsteady
      rw [follow_of_ok hrun] at hfrom ⊢
      rw [Plan.run, endState_bind_of_ok hrun]
      have hle := hsteady.store.size_le
      have hrest := ih b hown (hsteady.current ▸ Nat.lt_of_lt_of_le hcurrent hle)
        (List.forall_mem_cons.1 hfrom).2
      rw [Declared, hsteady.current] at hrest
      exact hrest.mono (fun _ hi => hi) hle
    | error stop m₁ =>
      rw [follow_of_error hrun]
      exact .nil
  | function _ ih =>
    exact declared_function (fun m => ih () List.nodup_nil) hcurrent hfrom
  | begin hs _ ih =>
    exact declared_begin htasks (fun b m => ih b (List.nodup_append.1 hown).2.1) hs hown hcurrent
      hfrom
  | @block own t next ht _ ih =>
    have hrun : Act.openBlock.run m =
        .ok m.store.frames.size { m with store := Act.openBlock.store m } := rfl
    rw [Plan.course, follow_of_ok hrun] at hfrom ⊢
    rw [Plan.run, endState_bind_of_ok hrun, Declared, declarations_cons_of_none rfl]
    have hsize : m.store.frames.size < (Act.openBlock.store m).frames.size :=
      Nat.lt_of_lt_of_eq (Nat.lt_succ_self _) (Store.size_addFrame _ _).symm
    exact declared_inFrame (m := { m with store := Act.openBlock.store m }) htasks
      (fun b m => ih b hown) ht hcurrent hsize (List.forall_mem_cons.1 hfrom).2
  | @body own f arguments t next ht _ ih =>
    have hrun : (Act.openBody f arguments).run m =
        .ok m.store.frames.size { m with store := (Act.openBody f arguments).store m } := rfl
    rw [Plan.course, follow_of_ok hrun] at hfrom ⊢
    rw [Plan.run, endState_bind_of_ok hrun, Declared, declarations_cons_of_none rfl]
    have hsize : m.store.frames.size < ((Act.openBody f arguments).store m).frames.size :=
      Nat.lt_of_lt_of_le (by simp) (Store.Grows.defineAll _ _ _ _).size_le
    exact declared_inFrame (m := { m with store := (Act.openBody f arguments).store m }) htasks
      (fun b m => ih b hown) ht hcurrent hsize (List.forall_mem_cons.1 hfrom).2

/-- In the course of a task that is from tidy code, no function is declared twice in a frame. -/
theorem Task.declared (htidy : code.Tidy) (n : Nat) {t : Task} {m : Machine}
    (ht : t.ownFunctions.Nodup) (hcurrent : m.current < m.store.frames.size)
    (hfrom : ∀ e ∈ t.course n m, e.From code) :
    Declared t.ownFunctions (t.course n m) m (endState (t.run n) m) := by
  induction n generalizing t m with
  | zero => exact .nil
  | succ n ih =>
    obtain ⟨hfirst, hlater⟩ := List.forall_mem_cons.1 hfrom
    rw [course, Declared, declarations_cons_of_none rfl, run_succ]
    exact Plan.declared (fun t m => ih) (declares htidy hfirst.1) ht hcurrent hlater

/-! ## Programs -/

theorem Plan.declares_statements (ss : List Stmt) :
    (Plan.statements ss).Declares (Stmt.ownFunctionsAll ss) := by
  induction ss with
  | nil => exact .answer
  | cons s ss ih => exact .begin (t := .execute s) (by simp) fun _ => ih

/-- In the course of a program that is from tidy code, no function is declared twice in a
frame. -/
theorem Compiled.declared (htidy : code.Tidy) {budget : Nat} {c : Compiled} {m : Machine}
    (hnodup : (Stmt.ownFunctionsAll c.program.statements).Nodup)
    (hcurrent : m.current < m.store.frames.size)
    (hfrom : ∀ e ∈ c.course budget m, e.From code) :
    Declared (Stmt.ownFunctionsAll c.program.statements) (c.course budget m) m
      (Session.runCompiled budget m c).2 := by
  rw [runCompiled_snd, ← Plan.run_statements]
  exact Plan.declared (m := m.learn c.locals) (fun _ _ => Task.declared htidy budget)
    (Plan.declares_statements c.program.statements) hnodup hcurrent hfrom

end Lox
