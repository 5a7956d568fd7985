import Lox.Proofs.Run.Code
import Lox.Proofs.Scope.Session
import Lox.Proofs.Syntax.Roles

/-!
# Methods are bound before they are called

A method becomes a function value in one way only: a property of an instance is read, and the
method of its class is bound to this instance (`Session.Binds`).  Wherever the function value
goes from there, it keeps the frame that was made for the receiver.  Hence every call that
runs the body of a method is a call of a method that was bound (`Session.Begins.bound`).
-/

namespace Lox

open Run

namespace Session

variable {budget : Nat} {session : Session} {sources : List String}

/-! ## Functions of several programs -/

theorem not_runs_nil {c : Compiled} {m : Machine} : ¬ session.Runs budget [] c m := by
  rintro ⟨before, source, rest, hsources, -⟩
  simp at hsources

/-- Numbers of later programs are not in use before. -/
theorem Runs.next_le {k : Numbered} {c : Compiled} {m : Machine}
    (h : session.Runs budget sources c m) {i : Nat} (hi : i ∈ c.program.numbers k) :
    k.next session.supply ≤ i := by
  induction sources generalizing session with
  | nil => exact (not_runs_nil h).elim
  | cons source sources ih =>
    rcases runs_cons.1 h with ⟨hcompile, -⟩ | h
    · exact (number_mem_range_of_compile hcompile hi).1
    · have hle := ih h
      rw [supply_step] at hle
      exact Nat.le_trans (supply_le_compile k _ _) hle

/-- No two programs of a session have a number in common. -/
theorem Runs.eq_of_number {k : Numbered} {c c' : Compiled} {m m' : Machine}
    (h : session.Runs budget sources c m) (h' : session.Runs budget sources c' m') {i : Nat}
    (hi : i ∈ c.program.numbers k) (hi' : i ∈ c'.program.numbers k) : c = c' := by
  induction sources generalizing session with
  | nil => exact (not_runs_nil h).elim
  | cons source sources ih =>
    have later {c c' : Compiled} {m' : Machine}
        (hcompile : (compile session.supply source).result = .ok c)
        (h' : (session.step budget source).2.Runs budget sources c' m')
        (hi : i ∈ c.program.numbers k) (hi' : i ∈ c'.program.numbers k) : False := by
      have hlt := (number_mem_range_of_compile hcompile hi).2
      have hle := h'.next_le hi'
      rw [supply_step] at hle
      omega
    rcases runs_cons.1 h with ⟨hcompile, -⟩ | h
    · rcases runs_cons.1 h' with ⟨hcompile', -⟩ | h'
      · rw [hcompile] at hcompile'
        cases hcompile'
        rfl
      · exact (later hcompile h' hi hi').elim
    · rcases runs_cons.1 h' with ⟨hcompile', -⟩ | h'
      · exact (later hcompile' h hi' hi).elim
      · exact ih h h'

/-- A function statement of one of the programs declares the function. -/
def HasFunction (budget : Nat) (session : Session) (sources : List String)
    (f : FunctionDecl) : Prop :=
  ∃ c m, session.Runs budget sources c m ∧ c.program.HasFunction f

/-- The function is a method of a class of one of the programs. -/
def HasMethod (budget : Nat) (session : Session) (sources : List String)
    (f : FunctionDecl) : Prop :=
  ∃ c m, session.Runs budget sources c m ∧ c.program.HasMethod f

/-- Functions and methods of a session have different numbers. -/
theorem HasMethod.number_ne {f g : FunctionDecl} (h : session.HasMethod budget sources f)
    (h' : session.HasFunction budget sources g) : f.number ≠ g.number := by
  obtain ⟨c, m, hruns, hmethod⟩ := h
  obtain ⟨c', m', hruns', hfunction⟩ := h'
  intro heq
  have hnumber := Program.mem_numbers_of_mem_roles hfunction.mem_roles
  rw [← heq] at hnumber
  obtain rfl := hruns.eq_of_number hruns'
    (Program.mem_numbers_of_mem_roles hmethod.mem_roles) hnumber
  obtain ⟨supply, source, hcompile⟩ := hruns.compile_eq_ok
  exact number_ne_of_compile hcompile hmethod hfunction heq

/-- No function of a session is a method, too. -/
theorem HasMethod.not_hasFunction {f : FunctionDecl}
    (h : session.HasMethod budget sources f) : ¬ session.HasFunction budget sources f :=
  fun hfunction => h.number_ne hfunction rfl

/-! ## Binding -/

/-- In the course of the source texts, a property read binds a method: its object is the
instance, the property is the method, and a frame is made for the receiver. -/
inductive Binds (budget : Nat) (session : Session) (sources : List String) :
    FrameId → InstanceId → Closure → Prop
  | get {n node object name nameSpan m i m₁ f m₂} :
      session.Begins budget sources (n + 1) (.evaluate (.get node object name nameSpan)) m →
      evaluate n object m = .ok (.instance i) m₁ →
      m₁.store.findProperty? i name = some (.method f) →
      evaluate (n + 1) (.get node object name nameSpan) m =
        .ok (.function ⟨f.decl, m₁.store.frames.size⟩) m₂ →
      Binds budget session sources m₁.store.frames.size i f

/-- Properties are read to evaluate a property read only. -/
theorem Begins.get_of_property {n : Nat} {o : Value} {name : String} {nameSpan : Span}
    {m : Machine} (h : session.Begins budget sources n (.property o name nameSpan) m) :
    ∃ node object m₀,
      session.Begins budget sources (n + 1) (.evaluate (.get node object name nameSpan)) m₀ ∧
      evaluate n object m₀ = .ok o m := by
  refine h.induct (P := fun n t m => t = .property o name nameSpan → ∃ node object m₀,
    session.Begins budget sources (n + 1) (.evaluate (.get node object name nameSpan)) m₀ ∧
    evaluate n object m₀ = .ok o m) ?_ ?_ rfl
  · intro c m₀ s m _ _ ht
    cases ht
  · intro k t m t' m' hbegins _ henter ht
    subst ht
    cases henter with
    | property hobject => exact ⟨_, _, _, hbegins, hobject⟩

/-- A basic action that reads a method of an instance binds it. -/
theorem binds_of_reads {a : Act} {m : Machine} {i : InstanceId} {name : String} {f : Closure}
    (ha : .acts a m ∈ session.course budget sources) (hreads : a.Reads i name)
    (hfind : m.store.findProperty? i name = some (.method f)) :
    session.Binds budget sources m.store.frames.size i f := by
  have hbegins : ∃ n nameSpan,
      session.Begins budget sources n (.property (.instance i) name nameSpan) m := by
    rcases acts_mem_course.1 ha with ⟨k, t, m₁, hbegins, hperforms⟩ | ⟨t, hbegins, rfl⟩
    · cases hreads with
      | now =>
        cases hperforms with
        | readProperty => exact ⟨_, _, hbegins⟩
      | spent => cases hperforms
    · cases hreads with
      | spent => exact ⟨0, _, hbegins⟩
  obtain ⟨n, nameSpan, hbegins⟩ := hbegins
  obtain ⟨node, object, m₀, hget, hobject⟩ := hbegins.get_of_property
  have hread : m.store.property i name =
      (some (.function (m.store.bind f i).1), (m.store.bind f i).2) := by
    rw [Store.property, hfind]
  have hanswer : evaluate (n + 1) (.get node object name nameSpan) m₀ =
      .ok (.function ⟨f.decl, m.store.frames.size⟩)
        { m with store := (m.store.bind f i).2 } := by
    rw [evaluate, bind_of_ok hobject, property_instance_apply, hread]
    rfl
  exact .get hget hobject hfind hanswer

/-- Binding a method is one of the basic actions. -/
theorem Binds.reads {e : FrameId} {i : InstanceId} {f : Closure}
    (h : session.Binds budget sources e i f) :
    ∃ a m name, .acts a m ∈ session.course budget sources ∧ a.Reads i name ∧
      m.store.findProperty? i name = some (.method f) ∧ m.store.frames.size = e := by
  obtain ⟨hget, hobject, hfind, -⟩ := h
  rename_i n node object name nameSpan m m₁ m₂
  have hbegins := hget.step (.property hobject)
  cases n with
  | zero => exact ⟨_, m₁, name, acts_mem_course.2 (.inr ⟨_, hbegins, rfl⟩), .spent, hfind, rfl⟩
  | succ n =>
    exact ⟨_, m₁, name, acts_mem_course.2 (.inl ⟨n, _, m₁, hbegins, .readProperty⟩), .now,
      hfind, rfl⟩

/-! ## Calls -/

/-- The code of a session: a function that may be called is declared by a function statement,
or is a method that was bound. -/
def code (budget : Nat) (session : Session) (sources : List String) : Code where
  stmt s := ∃ c m, session.Runs budget sources c m ∧ c.program.Has s
  declared f := session.HasFunction budget sources f
  method f := session.HasMethod budget sources f
  closure f := session.HasFunction budget sources f.decl ∨
    session.HasMethod budget sources f.decl ∧
      ∃ i f₀, session.Binds budget sources f.frame i f₀ ∧ f₀.decl = f.decl
  block := by
    rintro body span ⟨c, m, hruns, hs⟩ s hmem
    exact ⟨c, m, hruns, .block hs hmem⟩
  thenBranch := by
    rintro condition branch other span ⟨c, m, hruns, hs⟩
    exact ⟨c, m, hruns, .thenBranch hs⟩
  elseBranch := by
    rintro condition other branch span ⟨c, m, hruns, hs⟩
    exact ⟨c, m, hruns, .elseBranch hs⟩
  loop := by
    rintro condition body span ⟨c, m, hruns, hs⟩
    exact ⟨c, m, hruns, .loop hs⟩
  function := by
    rintro f span ⟨c, m, hruns, hs⟩
    exact ⟨c, m, hruns, span, hs⟩
  methods := by
    rintro name methods span ⟨c, m, hruns, hs⟩ f hf
    exact ⟨c, m, hruns, name, methods, span, hs, hf⟩
  body := by
    rintro f (⟨c, m, hruns, span, hs⟩ | ⟨⟨c, m, hruns, name, methods, span, hs, hf⟩, -⟩) s hmem
    · exact ⟨c, m, hruns, .functionBody hs hmem⟩
    · exact ⟨c, m, hruns, .methodBody hs hf hmem⟩

/-- All that happens in the course of a session is from its code. -/
theorem from_code {limit : Nat} {output : Output} {e : Event}
    (he : e ∈ (Session.initial limit output).course budget sources) :
    e.From ((Session.initial limit output).code budget sources) := by
  have hstatements : ∀ c m, (Session.initial limit output).Runs budget sources c m →
      ∀ s ∈ c.program.statements,
      ((Session.initial limit output).code budget sources).stmt s :=
    fun c m hruns s hs => ⟨c, m, hruns, .top hs⟩
  refine from_course hstatements (Store.From.empty.addFrame none) (fun e he => ?_) e he
  cases e with
  | begins n t m => trivial
  | acts a m =>
    refine ⟨fun f _ hf => .inl hf, fun i name f hreads hfind hmethod => ?_⟩
    exact .inr ⟨hmethod, i, f, binds_of_reads he hreads hfind, rfl⟩

/-- The body of a method is run in calls of bound methods only. -/
theorem Begins.bound {limit n : Nat} {output : Output} {f : Closure} {arguments : List Value}
    {m : Machine}
    (h : (Session.initial limit output).Begins budget sources n (.apply f arguments) m)
    (hmethod : (Session.initial limit output).HasMethod budget sources f.decl) :
    ∃ i f₀, (Session.initial limit output).Binds budget sources f.frame i f₀ ∧
      f₀.decl = f.decl := by
  have hfrom := (from_code (begins_mem_course.2 h)).1.1
  rcases hfrom with hfunction | ⟨-, hbound⟩
  · exact absurd hfunction hmethod.not_hasFunction
  · exact hbound

/-- Classes that are declared in the course of a session are classes of its programs. -/
theorem Begins.hasMethod {limit n : Nat} {output : Output} {name : String}
    {methods : List FunctionDecl} {span : Span} {m : Machine}
    (h : (Session.initial limit output).Begins budget sources n
      (.execute (.class name methods span)) m) {f : FunctionDecl} (hf : f ∈ methods) :
    (Session.initial limit output).HasMethod budget sources f := by
  obtain ⟨c, m₀, hruns, hs⟩ := (from_code (begins_mem_course.2 h)).1
  exact ⟨c, m₀, hruns, name, methods, span, hs, hf⟩

end Session

end Lox
