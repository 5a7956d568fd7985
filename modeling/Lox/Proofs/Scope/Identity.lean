import Lox.Proofs.Run.Declaring
import Lox.Proofs.Scope.Receiver

/-!
# Functions are equal if they were made by the same event

Function values are compared by their declaration and their frame.  A function value is made
when a function statement is executed, or when a property is read that is a method
(`Act.Makes`), and wherever it is found later, it is a copy of what was made then
(`Session.Holds.made`).  Two such events never give equal values: a function is declared once
in a frame, every method that is read gets a frame of its own, and functions and methods have
different numbers (`Session.pairwise_makes`).
-/

namespace Lox

open Run

/-! ## Parts of programs -/

/-- Parts of an orderly program are orderly. -/
theorem Program.Has.orderly {p : Program} {s : Stmt} (h : p.Has s) (hp : p.Orderly) :
    s.Orderly := by
  induction h with
  | top hs => exact Stmt.Orderly.of_mem hp hs
  | block _ hs ih =>
    rw [Stmt.Orderly] at ih
    exact Stmt.Orderly.of_mem ih hs
  | @thenBranch condition branch other span _ ih =>
    cases other with
    | none =>
      rw [Stmt.Orderly] at ih
      exact ih.1
    | some other =>
      rw [Stmt.Orderly] at ih
      exact ih.1.1
  | elseBranch _ ih =>
    rw [Stmt.Orderly] at ih
    exact ih.2.1
  | loop _ ih =>
    rw [Stmt.Orderly] at ih
    exact ih.1
  | functionBody _ hs ih =>
    rw [Stmt.Orderly] at ih
    exact Stmt.Orderly.of_mem ih.2.body hs
  | methodBody _ hf hs ih =>
    rw [Stmt.Orderly] at ih
    exact Stmt.Orderly.of_mem (FunctionDecl.Orderly.of_mem ih.2 hf).body hs

theorem Stmt.functionIds_sublist {s : Stmt} {ss : List Stmt} (hs : s ∈ ss) :
    s.functionIds.Sublist (Stmt.functionIdsAll ss) := by
  induction ss with
  | nil => cases hs
  | cons first ss ih =>
    rw [Stmt.functionIdsAll]
    rcases List.mem_cons.1 hs with rfl | hs
    · exact List.sublist_append_left _ _
    · exact (ih hs).trans (List.sublist_append_right _ _)

theorem FunctionDecl.functionIds_sublist {f : FunctionDecl} {fs : List FunctionDecl}
    (hf : f ∈ fs) : f.functionIds.Sublist (FunctionDecl.functionIdsAll fs) := by
  induction fs with
  | nil => cases hf
  | cons first fs ih =>
    rw [FunctionDecl.functionIdsAll]
    rcases List.mem_cons.1 hf with rfl | hf
    · exact List.sublist_append_left _ _
    · exact (ih hf).trans (List.sublist_append_right _ _)

theorem FunctionDecl.body_sublist (f : FunctionDecl) :
    (Stmt.functionIdsAll f.body).Sublist f.functionIds := by
  cases f
  rw [FunctionDecl.functionIds]
  exact List.sublist_append_left _ _

/-- Numbers that differ in a program differ in its parts. -/
theorem Program.Has.nodup {p : Program} {s : Stmt} (h : p.Has s)
    (hp : (p.numbers .function).Nodup) : s.functionIds.Nodup := by
  induction h with
  | top hs => exact hp.sublist (Stmt.functionIds_sublist hs)
  | block _ hs ih =>
    rw [Stmt.functionIds] at ih
    exact ih.sublist (Stmt.functionIds_sublist hs)
  | @thenBranch condition branch other span _ ih =>
    cases other with
    | none => rwa [Stmt.functionIds] at ih
    | some other =>
      rw [Stmt.functionIds] at ih
      exact ih.sublist (List.sublist_append_left _ _)
  | elseBranch _ ih =>
    rw [Stmt.functionIds] at ih
    exact ih.sublist (List.sublist_append_right _ _)
  | loop _ ih => rwa [Stmt.functionIds] at ih
  | @functionBody f span s _ hs ih =>
    rw [Stmt.functionIds] at ih
    exact ih.sublist ((Stmt.functionIds_sublist hs).trans f.body_sublist)
  | @methodBody name methods span f s _ hf hs ih =>
    rw [Stmt.functionIds] at ih
    have hbody := f.body_sublist.trans (FunctionDecl.functionIds_sublist hf)
    exact ih.sublist ((Stmt.functionIds_sublist hs).trans hbody)

theorem Stmt.ownFunctions_sublist (s : Stmt) : s.ownFunctions.Sublist s.functionIds := by
  cases s with
  | function f span =>
    cases f with
    | mk number name params body span =>
      rw [Stmt.functionIds, FunctionDecl.functionIds]
      exact List.sublist_append_right _ _
  | _ => exact List.nil_sublist _

theorem Stmt.ownFunctionsAll_sublist (ss : List Stmt) :
    (Stmt.ownFunctionsAll ss).Sublist (Stmt.functionIdsAll ss) := by
  induction ss with
  | nil => exact List.Sublist.refl _
  | cons s ss ih =>
    rw [Stmt.functionIdsAll]
    exact s.ownFunctions_sublist.append ih

theorem Stmt.ownFunctions_eq_nil {s : Stmt} (h : s.isDeclaration = false) :
    s.ownFunctions = [] := by
  cases s with
  | function f span => cases h
  | _ => rfl

/-! ## Making function values -/

theorem Closure.same_comm (f g : Closure) : f.same g = g.same f := by
  simp only [Closure.same, eq_comm]

/-- The basic action makes a function value: it declares a function in the current frame, or it
reads a property of an instance that is a method, which it binds in a frame of its own. -/
inductive Act.Makes : Act → Machine → Closure → Prop
  | declared {f m} : Makes (.defineFunction f) m ⟨f, m.current⟩
  | bound {a i name f m} :
      a.Reads i name → m.store.findProperty? i name = some (.method f) →
      Makes a m ⟨f.decl, m.store.frames.size⟩

/-- A basic action makes one function value. -/
theorem Act.Makes.eq {a : Act} {m : Machine} {f g : Closure} (hf : a.Makes m f)
    (hg : a.Makes m g) : f = g := by
  cases hf with
  | declared =>
    cases hg with
    | declared => rfl
    | bound hreads _ => cases hreads
  | bound hreads hfind =>
    cases hg with
    | declared => cases hreads
    | bound hreads' hfind' =>
      cases hreads <;>
      · cases hreads'
        rw [hfind] at hfind'
        cases hfind'
        rfl

/-- To bind a method adds a frame. -/
theorem Act.Reads.size_lt {a : Act} {i : InstanceId} {name : String} {m : Machine} {f : Closure}
    (h : a.Reads i name) (hfind : m.store.findProperty? i name = some (.method f)) :
    m.store.frames.size < (a.store m).frames.size := by
  rw [h.store_eq, Store.property, hfind]
  exact (Array.getElem?_eq_some_iff.1 (Store.frames_bind m.store f i)).1

/-- What happens makes a function value. -/
def Event.Makes (f : Closure) : Event → Prop
  | begins .. => False
  | acts a m => a.Makes m f

namespace Session

variable {budget limit : Nat} {output : Output} {session : Session} {sources : List String}

/-- The function value is made by the event with this place in the course of a session. -/
def MakesAt (budget : Nat) (session : Session) (sources : List String) (k : Nat)
    (f : Closure) : Prop :=
  ∃ x, (session.course budget sources)[k]? = some x ∧ x.Makes f

/-- The store is that of a moment of the session, or the one that the session leaves. -/
def Finds (budget : Nat) (session : Session) (sources : List String) (s : Store) : Prop :=
  s = (session.afterAll budget sources).machine.store ∨
    ∃ x ∈ session.course budget sources, s = x.machine.store ∨ s = x.after.store

/-- The function values that the programs of a session can hold: those that are bound to a
name or held in a field at some moment, and the values of expressions. -/
inductive Holds (budget : Nat) (session : Session) (sources : List String) : Closure → Prop
  | bound {s e name f} :
      session.Finds budget sources s → s.getHere? e name = some (.function f) →
      Holds budget session sources f
  | field {s i name f} :
      session.Finds budget sources s → s.field? i name = some (.function f) →
      Holds budget session sources f
  | answered {n e m f m'} :
      session.Begins budget sources n (.evaluate e) m → evaluate n e m = .ok (.function f) m' →
      Holds budget session sources f

/-! ## What is held was made -/

/-- The code of a session, in which a function may be called only if it was made. -/
def makings (budget : Nat) (session : Session) (sources : List String) : Code :=
  { session.code budget sources with
    closure := fun f =>
      (session.HasFunction budget sources f.decl ∨ session.HasMethod budget sources f.decl) ∧
        ∃ x ∈ session.course budget sources, x.Makes f
    body := by
      rintro f ⟨⟨c, m, hruns, span, hs⟩ | ⟨c, m, hruns, name, methods, span, hs, hf⟩, -⟩ s hmem
      · exact ⟨c, m, hruns, .functionBody hs hmem⟩
      · exact ⟨c, m, hruns, .methodBody hs hf hmem⟩ }

theorem admitted_makings {e : Event} (he : e ∈ session.course budget sources) :
    e.Admitted (session.makings budget sources) := by
  cases e with
  | begins n t m => trivial
  | acts a m =>
    refine ⟨fun f ha hf => ⟨.inl hf, _, he, ?_⟩, fun i name f hreads hfind hmethod => ?_⟩
    · subst ha
      exact .declared
    · exact ⟨.inr hmethod, _, he, .bound hreads hfind⟩

theorem from_makings {e : Event} (he : e ∈ (Session.initial limit output).course budget sources) :
    e.From ((Session.initial limit output).makings budget sources) := by
  have hstatements : ∀ c m, (Session.initial limit output).Runs budget sources c m →
      ∀ s ∈ c.program.statements,
      ((Session.initial limit output).makings budget sources).stmt s :=
    fun c m hruns s hs => ⟨c, m, hruns, .top hs⟩
  exact from_course hstatements (Store.From.empty.addFrame none) (fun _ => admitted_makings) e he

/-- Whatever a session finds was made. -/
theorem Finds.from_makings {s : Store}
    (h : (Session.initial limit output).Finds budget sources s) :
    s.From ((Session.initial limit output).makings budget sources) := by
  have hfirst : (Session.initial limit output).machine.store.From
      ((Session.initial limit output).makings budget sources) := Store.From.empty.addFrame none
  obtain ⟨hlast, hcourse⟩ := (traces_course budget (Session.initial limit output) sources).always
    (P := fun s => s.From ((Session.initial limit output).makings budget sources)) hfirst
    fun a m ha hm => Act.from_store (Session.from_makings ha).1 (admitted_makings ha) hm
  rcases h with rfl | ⟨x, hx, rfl | rfl⟩
  · exact hlast
  · exact (hcourse x hx).1
  · exact (hcourse x hx).2

/-- Whatever happens in the course of a task that is begun happens in the course of the
session. -/
theorem Begins.course_subset {n : Nat} {t : Task} {m : Machine}
    (h : session.Begins budget sources n t m) :
    t.course n m ⊆ session.course budget sources := by
  obtain ⟨c, m₀, hruns, before, s, rest, m₁, hstatements, hbefore, hreach⟩ := h
  have onward {k : Nat} {t' : Task} {m' : Machine} (hreach' : Reaches n t m k t' m') :
      session.Begins budget sources k t' m' :=
    ⟨c, m₀, hruns, before, s, rest, m₁, hstatements, hbefore, hreach.trans hreach'⟩
  intro e he
  cases e with
  | begins k t' m' => exact begins_mem_course.2 (onward (Task.begins_mem_course.1 he))
  | acts a m' =>
    rcases Task.acts_mem_course.1 he with ⟨k, t', m₂, hreach', hperforms⟩ | ⟨t', hreach', rfl⟩
    · exact acts_mem_course.2 (.inl ⟨k, t', m₂, onward hreach', hperforms⟩)
    · exact acts_mem_course.2 (.inr ⟨t', onward hreach', rfl⟩)

/-- Every function value that is held was made. -/
theorem Holds.made {f : Closure} (h : (Session.initial limit output).Holds budget sources f) :
    ∃ k, (Session.initial limit output).MakesAt budget sources k f := by
  have hmade : ((Session.initial limit output).makings budget sources).closure f := by
    cases h with
    | bound hfinds hf => exact hfinds.from_makings.frames _ _ _ hf f rfl
    | field hfinds hf => exact hfinds.from_makings.fields _ _ _ hf f rfl
    | @answered n e m f m' hbegins hf =>
      have hstore := (Session.from_makings (begins_mem_course.2 hbegins)).2
      have hends := Task.endsFrom n (t := .evaluate e) trivial hstore fun x hx =>
        admitted_makings (hbegins.course_subset hx)
      exact hends.answer _ _ hf f rfl
  obtain ⟨-, x, hx, hmakes⟩ := hmade
  obtain ⟨k, hk, rfl⟩ := List.mem_iff_getElem.1 hx
  exact ⟨k, _, List.getElem?_eq_getElem hk, hmakes⟩

/-! ## What is made is made once -/

/-- Every statement of a session is orderly, and functions in it have different numbers. -/
theorem code_stmt {s : Stmt} (h : (session.code budget sources).stmt s) :
    s.Orderly ∧ s.functionIds.Nodup := by
  obtain ⟨c, m, hruns, hs⟩ := h
  obtain ⟨supply, source, hcompile⟩ := hruns.compile_eq_ok
  exact ⟨hs.orderly (orderly_of_compile hcompile),
    hs.nodup (nodup_numbers_of_compile .function hcompile)⟩

theorem tidy_code : (session.code budget sources).Tidy where
  thenBranch {condition branch other span} h := by
    have horderly := (code_stmt h).1
    cases other with
    | none =>
      rw [Stmt.Orderly] at horderly
      exact Stmt.ownFunctions_eq_nil horderly.2
    | some other =>
      rw [Stmt.Orderly] at horderly
      exact Stmt.ownFunctions_eq_nil horderly.1.2
  elseBranch h := by
    have horderly := (code_stmt h).1
    rw [Stmt.Orderly] at horderly
    exact Stmt.ownFunctions_eq_nil horderly.2.2
  loop h := by
    have horderly := (code_stmt h).1
    rw [Stmt.Orderly] at horderly
    exact Stmt.ownFunctions_eq_nil horderly.2
  block {body span} h := by
    have hnodup := (code_stmt h).2
    rw [Stmt.functionIds] at hnodup
    exact hnodup.sublist (Stmt.ownFunctionsAll_sublist body)
  body {f} h := by
    refine List.Nodup.sublist
      ((Stmt.ownFunctionsAll_sublist f.decl.body).trans f.decl.body_sublist) ?_
    rcases h with ⟨c, m, hruns, span, hs⟩ | ⟨⟨c, m, hruns, name, methods, span, hs, hf⟩, -⟩
    · have hnodup := (code_stmt ⟨c, m, hruns, hs⟩).2
      rwa [Stmt.functionIds] at hnodup
    · have hnodup := (code_stmt ⟨c, m, hruns, hs⟩).2
      rw [Stmt.functionIds] at hnodup
      exact hnodup.sublist (FunctionDecl.functionIds_sublist hf)

/-- Programs of a session that are from tidy code declare no function twice in a frame. -/
theorem scattered {code : Code} (htidy : code.Tidy)
    (hcurrent : session.machine.current < session.machine.store.frames.size)
    (hfrom : ∀ e ∈ session.course budget sources, e.From code) :
    Scattered (Numbered.function.next session.supply ≤ ·) session.machine.current
      session.machine.store.frames.size
      (session.afterAll budget sources).machine.store.frames.size
      (declarations (session.course budget sources)) := by
  induction sources generalizing session with
  | nil => exact .nil
  | cons source sources ih =>
    rw [course] at hfrom ⊢
    obtain ⟨hnow, hlater⟩ := List.forall_mem_append.1 hfrom
    have hsupply := supply_le_compile .function session.supply source
    rw [declarations_append]
    show Scattered _ _ _
      ((session.step budget source).2.afterAll budget sources).machine.store.frames.size _
    cases hcompile : (compile session.supply source).result with
    | error errors =>
      rw [step_of_error hcompile] at hlater ⊢
      have hrest := @ih ⟨session.machine, (compile session.supply source).supply⟩ hcurrent hlater
      exact hrest.mono (fun i hi => Nat.le_trans hsupply hi) (Nat.le_refl _)
    | ok c =>
      have hsublist := Stmt.ownFunctionsAll_sublist c.program.statements
      rw [hcompile] at hnow
      have hfirst := Compiled.declared htidy
        ((nodup_numbers_of_compile .function hcompile).sublist hsublist) hcurrent hnow
      have hsteady := keeps_statements budget c.program.statements
        (session.machine.learn c.locals)
      rw [← runCompiled_snd] at hsteady
      rw [step_of_ok hcompile] at hlater ⊢
      have hle := hsteady.store.size_le
      have hcurrent' : (runCompiled budget session.machine c).2.current =
        session.machine.current := hsteady.current
      have hrest := ih (by rw [hcurrent']; exact Nat.lt_of_lt_of_le hcurrent hle) hlater
      have hend := (traces_course budget
        ⟨(runCompiled budget session.machine c).2, (compile session.supply source).supply⟩
        sources).size_le
      rw [hcurrent'] at hrest
      refine (hfirst.append hrest hcurrent hle hend fun i hi hi' => ?_).mono
        (fun i hi => hi.elim (fun hi => ?_) fun hi => ?_) (Nat.le_refl _)
      · have hrange := number_mem_range_of_compile (k := .function) hcompile
          (hsublist.subset hi)
        exact Nat.not_le_of_lt hrange.2 hi'
      · exact (number_mem_range_of_compile (k := .function) hcompile (hsublist.subset hi)).1
      · exact Nat.le_trans hsupply hi

/-- A method that is found is a method of a program. -/
theorem hasMethod_of_found {a : Act} {m : Machine} {i : InstanceId} {name : String} {f : Closure}
    (ha : .acts a m ∈ (Session.initial limit output).course budget sources)
    (hfind : m.store.findProperty? i name = some (.method f)) :
    (Session.initial limit output).HasMethod budget sources f.decl := by
  obtain ⟨c, hf⟩ := Store.findProperty?_eq_method hfind
  exact (from_code ha).2.methods c name f hf

/-- Of two events of a session that make function values, the values are not equal. -/
theorem pairwise_makes (budget limit : Nat) (output : Output) (sources : List String) :
    ((Session.initial limit output).course budget sources).Pairwise fun x y =>
      ∀ f g : Closure, x.Makes f → y.Makes g → f.same g = false := by
  have hnodup : (declarations ((Session.initial limit output).course budget sources)).Nodup :=
    (scattered tidy_code Nat.zero_lt_one fun e => from_code).nodup
  have hdeclared := List.pairwise_filterMap.1 hnodup
  have hgrow := (traces_course budget (Session.initial limit output) sources).pairwise_size_le
  refine (hdeclared.and hgrow).imp_of_mem fun {x y} hx hy hxy f g hf hg => ?_
  by_contra hsame
  rw [Bool.not_eq_false, Closure.same, Bool.and_eq_true, decide_eq_true_eq, decide_eq_true_eq]
    at hsame
  obtain ⟨hnumber, hframe⟩ := hsame
  cases x with
  | begins n t m => exact hf
  | acts a m =>
    cases y with
    | begins n t m => exact hg
    | acts a' m' =>
      cases hf with
      | declared =>
        cases hg with
        | declared => exact hxy.1 _ rfl _ rfl (Prod.ext hnumber hframe)
        | bound hreads hfind =>
          exact (hasMethod_of_found hy hfind).number_ne (from_code hx).1 hnumber.symm
      | bound hreads hfind =>
        cases hg with
        | declared => exact (hasMethod_of_found hx hfind).number_ne (from_code hy).1 hnumber
        | bound hreads' hfind' =>
          have hle := hxy.2
          rw [Event.after_acts_store] at hle
          exact absurd hframe (Nat.ne_of_lt (Nat.lt_of_lt_of_le (hreads.size_lt hfind) hle))

/-- Events with different places make values that are not equal. -/
theorem MakesAt.same_eq_false {j k : Nat} {f g : Closure} (hne : j ≠ k)
    (hf : (Session.initial limit output).MakesAt budget sources j f)
    (hg : (Session.initial limit output).MakesAt budget sources k g) : f.same g = false := by
  have hpairs := List.pairwise_iff_getElem.1 (pairwise_makes budget limit output sources)
  obtain ⟨x, hx, hxf⟩ := hf
  obtain ⟨y, hy, hyg⟩ := hg
  obtain ⟨hj, rfl⟩ := List.getElem?_eq_some_iff.1 hx
  obtain ⟨hk, rfl⟩ := List.getElem?_eq_some_iff.1 hy
  rcases Nat.lt_or_gt_of_ne hne with hlt | hlt
  · exact hpairs j k hj hk hlt f g hxf hyg
  · rw [Closure.same_comm]
    exact hpairs k j hk hj hlt g f hyg hxf

/-- An event makes one function value. -/
theorem MakesAt.eq {k : Nat} {f g : Closure} (hf : session.MakesAt budget sources k f)
    (hg : session.MakesAt budget sources k g) : f = g := by
  obtain ⟨x, hx, hxf⟩ := hf
  obtain ⟨y, hy, hyg⟩ := hg
  rw [hx] at hy
  cases hy
  cases x with
  | begins n t m => exact hxf.elim
  | acts a m => exact Act.Makes.eq hxf hyg

/-- A method that is bound is the value of the property read. -/
theorem Binds.holds {e : FrameId} {i : InstanceId} {f : Closure}
    (h : session.Binds budget sources e i f) : session.Holds budget sources ⟨f.decl, e⟩ := by
  cases h with
  | get hbegins _ _ heval => exact .answered hbegins heval

/-- A function value that was made is held. -/
theorem MakesAt.holds {k : Nat} {f : Closure}
    (h : (Session.initial limit output).MakesAt budget sources k f) :
    (Session.initial limit output).Holds budget sources f := by
  obtain ⟨x, hk, hmakes⟩ := h
  have hx := List.mem_of_getElem? hk
  cases x with
  | begins n t m => exact hmakes.elim
  | acts a m =>
    cases hmakes with
    | @declared f m =>
      have hhere : (Event.acts (.defineFunction f) m).after.store.getHere? m.current f.name =
          some (.function ⟨f, m.current⟩) := by
        rw [Event.after_acts_store]
        exact (Store.getHere?_define _ _ _ _ _ _).trans (if_pos ⟨rfl, rfl, (plain_current hx).1⟩)
      exact .bound (.inr ⟨_, hx, .inr rfl⟩) hhere
    | bound hreads hfind => exact (binds_of_reads hx hreads hfind).holds

end Session

/-- **Functions are equal if and only if they were made by the same event.**  An event that makes
a function value is one execution of a function statement, or one reading of a property that is
a method (`Act.Makes`).  In any session, the function values that the programs can hold are
those that were made; two of them are equal exactly if they are copies of what one event has
made; and what different events make is never equal, even if they execute the same statement, or
read the same method of the same instance. -/
theorem equal_iff_same_making (budget limit : Nat) (output : Output) (sources : List String) :
    let start := Session.initial limit output
    (∀ f, start.Holds budget sources f ↔ ∃ k, start.MakesAt budget sources k f) ∧
    (∀ f g, start.Holds budget sources f → start.Holds budget sources g →
      ((Value.function f).equal (.function g) = true ↔
        ∃ k, start.MakesAt budget sources k f ∧ start.MakesAt budget sources k g)) ∧
    (∀ j k f g, j ≠ k → start.MakesAt budget sources j f → start.MakesAt budget sources k g →
      (Value.function f).equal (.function g) = false) := by
  intro start
  refine ⟨fun f => ⟨fun h => h.made, fun ⟨k, h⟩ => h.holds⟩,
    fun f g hf hg => ⟨fun hequal => ?_, ?_⟩, fun j k f g hne hf hg => hf.same_eq_false hne hg⟩
  · obtain ⟨j, hj⟩ := hf.made
    obtain ⟨k, hk⟩ := hg.made
    by_cases hne : j = k
    · subst hne
      exact ⟨j, hj, hk⟩
    · have hfalse := hj.same_eq_false hne hk
      rw [Value.equal, hfalse] at hequal
      cases hequal
  · rintro ⟨k, hf, hg⟩
    rw [hf.eq hg, Value.equal, Closure.same]
    simp

end Lox
