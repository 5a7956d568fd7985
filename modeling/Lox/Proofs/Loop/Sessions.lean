import Lox.Proofs.Loop.Running
import Lox.Proofs.Matching.Programs

/-!
# Sessions read directly

A session can be run with all `for` statements read directly.  The distances of its names are
those of the places without the scopes of rounds.  Such a session reports the same of every text
(`Session.directReports_eq`), and whatever one of the two sessions begins, the other one begins
as well (`Session.Begins.directly`).
-/

namespace Lox

open Run

/-! ## Programs and sessions -/

/-- Distances of the local names of a program, if rounds have no scopes. -/
def Program.directLocals (p : Program) : Locals :=
  (p.occurrences.map Occurrence.direct).foldl Occurrence.addTo ∅

/-- Executes the statements of a program in order, reading `for` statements directly. -/
def Run.directStatements (budget : Nat) : List Stmt → Run Unit
  | [] => return
  | s :: ss => do
    let _ ← (Task.execute s).direct budget
    directStatements budget ss

/-- While a program runs from the machine `m`, read directly, a task is begun with budget `n` on
the machine `m'`. -/
def Compiled.DirectlyBegins (budget : Nat) (c : Compiled) (m : Machine) (n : Nat) (t : Task)
    (m' : Machine) : Prop :=
  ∃ before s rest m₁,
    c.program.statements = before ++ s :: rest ∧
    directStatements budget before (m.learn c.program.directLocals) = .ok () m₁ ∧
    DirectlyReaches budget (.execute s) m₁ n t m'

namespace Session

/-- Runs a compiled text, read directly. -/
def runDirectly (budget : Nat) (m : Machine) (c : Compiled) : Ending × Machine :=
  match directStatements budget c.program.statements (m.learn c.program.directLocals) with
  | .ok () m => (.finished, m)
  | .error stop m => (stop.ending, m)

/-- Runs a source text, read directly. -/
def directStep (budget : Nat) (session : Session) (source : String) : Ending × Session :=
  let compilation := compile session.supply source
  match compilation.result with
  | .error errors => (.refused errors, { session with supply := compilation.supply })
  | .ok compiled =>
    let (ending, machine) := runDirectly budget session.machine compiled
    (ending, ⟨machine, compilation.supply⟩)

/-- Runs a source text, read directly, and reports what it did. -/
def directReport (budget : Nat) (session : Session) (source : String) : Report × Session :=
  let before := session.lines.size
  let (ending, session) := session.directStep budget source
  (⟨ending, session.lines.toList.drop before⟩, session)

/-- Runs source texts in order, all of them read directly. -/
def directReports (budget : Nat) (session : Session) : List String → List Report
  | [] => []
  | source :: sources =>
    let (report, session) := session.directReport budget source
    report :: session.directReports budget sources

/-- The session after some more source texts, read directly. -/
def directAfterAll (budget : Nat) (session : Session) (sources : List String) : Session :=
  sources.foldl (fun session source => (session.directStep budget source).2) session

/-- In the course of the source texts, read directly, a task is begun with budget `n` on the
machine `m`. -/
def DirectlyBegins (budget : Nat) (session : Session) (sources : List String) (n : Nat) (t : Task)
    (m : Machine) : Prop :=
  ∃ before source rest c,
    sources = before ++ source :: rest ∧
    (compile (session.directAfterAll budget before).supply source).result = .ok c ∧
    c.DirectlyBegins budget (session.directAfterAll budget before).machine n t m

theorem directStep_of_error {budget : Nat} {session : Session} {source : String}
    {errors : List CompileError} (h : (compile session.supply source).result = .error errors) :
    session.directStep budget source =
      (.refused errors, { session with supply := (compile session.supply source).supply }) := by
  simp [directStep, h]

theorem directStep_of_ok {budget : Nat} {session : Session} {source : String} {c : Compiled}
    (h : (compile session.supply source).result = .ok c) :
    session.directStep budget source =
      ((runDirectly budget session.machine c).1,
        ⟨(runDirectly budget session.machine c).2, (compile session.supply source).supply⟩) := by
  simp [directStep, h]

end Session

theorem keeps_directStatements (budget : Nat) (ss : List Stmt) :
    Keeps (directStatements budget ss) := by
  induction ss with
  | nil => exact keeps_pure _
  | cons s ss ih => exact keeps_bind (Task.keeps_direct budget (.execute s)) fun _ => ih

theorem steady_runDirectly (budget : Nat) (m : Machine) (c : Compiled) :
    (m.learn c.program.directLocals).Steady (Session.runDirectly budget m c).2 := by
  have hkeeps := keeps_directStatements budget c.program.statements
  rw [Session.runDirectly]
  cases hrun : directStatements budget c.program.statements (m.learn c.program.directLocals) with
  | ok u m₁ => exact hkeeps.of_ok hrun
  | error stop m₁ => exact hkeeps.of_error hrun

/-! ## Distances -/

/-- Without rounds, the distances of a compiled text are those that the places give then. -/
theorem direct_addressed_of_compile {supply : Supply} {source : String} {c : Compiled}
    (h : (compile supply source).result = .ok c) :
    (∀ o ∈ c.program.occurrences, o.direct.IsAddressed c.program.directLocals) ∧
      ∀ id, id < supply.node ∨ (compile supply source).supply.node ≤ id →
        c.program.directLocals[id]? = none := by
  obtain ⟨tokens, -, hprogram, -, hsupply, -⟩ := compile_eq_ok h
  have hids : (c.program.occurrences.map Occurrence.direct).map Occurrence.id =
      c.program.ids := by
    rw [List.map_map, ← c.program.map_id_occurrences]
    rfl
  constructor
  · intro o ho
    refine isAddressed_foldl_addTo ?_ (fun _ _ => by simp) o.direct (List.mem_map_of_mem ho)
    rw [hids, hprogram]
    exact Parsed.nodup_ids supply tokens
  · intro id hid
    rw [Program.directLocals, getElem?_foldl_addTo_of_not_mem]
    · simp
    · rw [hids, hprogram]
      intro hmem
      have hrange := Parsed.id_mem_range hmem
      rw [← hsupply] at hrange
      omega

/-! ## Programs -/

/-- A program starts on machines that are read as one another, in the global frame. -/
structure Compiled.StartsAlike (known : Occurrence → Prop) (c : Compiled) (m m' : Machine) :
    Prop where
  /-- The program is orderly. -/
  orderly : c.program.Orderly
  /-- The occurrences of the program are known. -/
  occurrences : ∀ o ∈ c.program.occurrences, known o
  /-- The machines that know the distances of the program are read as one another. -/
  readAs : (m.learn c.locals).ReadAs known (m'.learn c.program.directLocals)
  /-- Names are bound in the global frame. -/
  current : m.current = m.globals
  /-- So they are for the other reading. -/
  current' : m'.current = m'.globals

namespace Compiled.StartsAlike

variable {known : Occurrence → Prop} {budget : Nat} {c : Compiled} {m m' m₁ m₁' : Machine}

/-- A statement of the program is aligned when its turn comes. -/
theorem aligned (h : c.StartsAlike known m m') (hs : (m.learn c.locals).Steady m₁)
    (hs' : (m'.learn c.program.directLocals).Steady m₁') {s : Stmt}
    (hmem : s ∈ c.program.statements) : Task.Aligned known m₁ m₁' (.execute s) := by
  refine ⟨.of_mem h.orderly hmem, [], ⟨?_, fun o ho => ?_⟩, fun _ => trivial⟩
  · have hcurrent : m₁.current = m₁.globals :=
      hs.current.trans (h.current.trans hs.globals.symm)
    have hcurrent' : m₁'.current = m₁.globals :=
      hs'.current.trans (h.current'.trans (h.readAs.globals.trans hs.globals.symm))
    rw [hcurrent, hcurrent']
    exact .global
  · exact h.occurrences o (Stmt.mem_occurrencesAll_nil hmem ho)

theorem agrees_statements (h : c.StartsAlike known m m') {ss : List Stmt}
    (hss : ∀ s ∈ ss, s ∈ c.program.statements) (hm : m₁.ReadAs known m₁')
    (hs : (m.learn c.locals).Steady m₁) (hs' : (m'.learn c.program.directLocals).Steady m₁') :
    Agrees known (fun _ _ _ => True) (statements budget ss m₁)
      (directStatements budget ss m₁') := by
  induction ss generalizing m₁ m₁' with
  | nil => exact .pure hm trivial
  | cons s ss ih =>
    have halign := h.aligned hs hs' (hss s (List.mem_cons_self ..))
    refine .bind (tasksAgree known budget _ _ _ hm halign) fun flow m₂ m₂' hrun hrun' hm₂ _ => ?_
    exact ih (fun s' hmem => hss s' (List.mem_cons_of_mem _ hmem)) hm₂
      (hs.trans ((Task.keeps budget (.execute s)).of_ok hrun))
      (hs'.trans ((Task.keeps_direct budget (.execute s)).of_ok hrun'))

/-- The program ends alike in both readings. -/
theorem runDirectly (h : c.StartsAlike known m m') (budget : Nat) :
    (Session.runDirectly budget m' c).1 = (Session.runCompiled budget m c).1 ∧
      (Session.runCompiled budget m c).2.ReadAs known (Session.runDirectly budget m' c).2 := by
  have hends : Agrees known (fun _ _ _ => True)
      (statements budget c.program.statements (m.learn c.locals))
      (directStatements budget c.program.statements (m'.learn c.program.directLocals)) :=
    h.agrees_statements (fun _ hmem => hmem) h.readAs (.refl _) (.refl _)
  rw [Session.runDirectly]
  generalize hrun : statements budget c.program.statements (m.learn c.locals) = o at hends
  generalize directStatements budget c.program.statements (m'.learn c.program.directLocals) = o'
    at hends ⊢
  cases hends with
  | ok hm _ =>
    rw [runCompiled_of_ok hrun]
    exact ⟨rfl, hm⟩
  | error hm =>
    rw [runCompiled_of_error hrun]
    exact ⟨rfl, hm⟩

/-- What is begun in the course of the program is begun in both readings. -/
theorem directly (h : c.StartsAlike known m m') {n : Nat} {t : Task}
    (hbegins : c.Begins budget m n t m₁) :
    ∃ m₁', c.DirectlyBegins budget m' n t m₁' ∧ m₁.ReadAs known m₁' ∧
      t.Aligned known m₁ m₁' := by
  obtain ⟨before, s, rest, m₂, hstatements, hbefore, hreach⟩ := hbegins
  have hends : Agrees known (fun _ _ _ => True)
      (statements budget before (m.learn c.locals))
      (directStatements budget before (m'.learn c.program.directLocals)) :=
    h.agrees_statements (fun s' hmem => by simp [hstatements, hmem]) h.readAs (.refl _) (.refl _)
  rw [hbefore] at hends
  obtain ⟨m₂', hbefore', hm₂, -⟩ := hends.of_ok
  have halign := h.aligned ((keeps_statements budget before).of_ok hbefore)
    ((keeps_directStatements budget before).of_ok hbefore')
    (show s ∈ c.program.statements by simp [hstatements])
  obtain ⟨m₁', hreach', hm₁, ht⟩ := hreach.directly hm₂ halign
  exact ⟨m₁', ⟨before, s, rest, m₂', hstatements, hbefore', hreach'⟩, hm₁, ht⟩

end Compiled.StartsAlike

/-! ## Sessions -/

namespace Session

/-- Between texts, the machines are read as one another, and the numbers left are the same. -/
structure ReadAs (known : Occurrence → Prop) (session session' : Session) : Prop where
  /-- The machines are read as one another. -/
  machine : session.machine.ReadAs known session'.machine
  /-- Names are bound in the global frame. -/
  current : session.machine.current = session.machine.globals
  /-- So they are for the other reading. -/
  current' : session'.machine.current = session'.machine.globals
  /-- The numbers left are the same. -/
  supply : session'.supply = session.supply
  /-- What is known has numbers that are in use. -/
  used : ∀ o, known o → o.id < session.supply.node
  /-- No distances are noted for numbers that are not in use. -/
  unused : ∀ id, session.supply.node ≤ id →
    session.machine.locals[id]? = none ∧ session'.machine.locals[id]? = none

namespace ReadAs

variable {known : Occurrence → Prop} {budget : Nat} {session session' : Session}
  {source : String}

/-- A program that is run next starts alike. -/
theorem startsAlike (h : session.ReadAs known session') {c : Compiled}
    (hcompile : (compile session.supply source).result = .ok c) :
    c.StartsAlike (fun o => known o ∨ o ∈ c.program.occurrences) session.machine
      session'.machine := by
  obtain ⟨haddressed, -, hnone⟩ := addressed_of_compile hcompile
  obtain ⟨haddressed', hnone'⟩ := direct_addressed_of_compile hcompile
  have hm := h.machine
  refine ⟨orderly_of_compile hcompile, fun o ho => .inr ho, ?_, h.current, h.current'⟩
  refine ⟨hm.store.mono fun o ho => .inl ho, hm.globals, hm.callDepth, hm.maxCallDepth,
    hm.output, fun o ho => ?_, fun o ho => ?_⟩
  · rw [Occurrence.IsAddressed, getElem?_learn]
    rcases ho with hold | hnew
    · rw [hnone o.id (.inl (h.used o hold)), Option.none_or]
      exact hm.locals o hold
    · obtain ⟨hdistance, -, hle, -⟩ := haddressed o hnew
      rw [(h.unused o.id hle).1, Option.or_none]
      exact hdistance
  · rw [Occurrence.IsAddressed, getElem?_learn]
    rcases ho with hold | hnew
    · rw [hnone' o.direct.id (.inl (h.used o hold)), Option.none_or]
      exact hm.locals' o hold
    · obtain ⟨-, -, hle, -⟩ := haddressed o hnew
      rw [(h.unused o.direct.id hle).2, Option.or_none]
      exact haddressed' o hnew

/-- One more text ends alike and leaves sessions that are read as one another. -/
theorem step (h : session.ReadAs known session') (budget : Nat) (source : String) :
    (session'.directStep budget source).1 = (session.step budget source).1 ∧
      ∃ known', (session.step budget source).2.ReadAs known'
        (session'.directStep budget source).2 := by
  have hle := supply_le_compile .expression session.supply source
  cases hcompile : (compile session.supply source).result with
  | error errors =>
    have hcompile' : (compile session'.supply source).result = .error errors := by
      rw [h.supply]
      exact hcompile
    rw [step_of_error hcompile, directStep_of_error hcompile']
    refine ⟨rfl, known, h.machine, h.current, h.current', ?_, fun o ho => ?_, fun id hid => ?_⟩
    · rw [h.supply]
    · exact Nat.lt_of_lt_of_le (h.used o ho) hle
    · exact h.unused id (Nat.le_trans hle hid)
  | ok c =>
    have hcompile' : (compile session'.supply source).result = .ok c := by
      rw [h.supply]
      exact hcompile
    have hstarts := h.startsAlike hcompile
    obtain ⟨hending, hm⟩ := hstarts.runDirectly budget
    have hsteady := keeps_statements budget c.program.statements (session.machine.learn c.locals)
    rw [← runCompiled_snd] at hsteady
    have hsteady' := steady_runDirectly budget session'.machine c
    obtain ⟨haddressed, -, hnone⟩ := addressed_of_compile hcompile
    obtain ⟨-, hnone'⟩ := direct_addressed_of_compile hcompile
    rw [step_of_ok hcompile, directStep_of_ok hcompile']
    refine ⟨hending, _, hm, ?_, ?_, ?_, fun o ho => ?_, fun id hid => ⟨?_, ?_⟩⟩
    · exact hsteady.current.trans (h.current.trans hsteady.globals.symm)
    · exact hsteady'.current.trans (h.current'.trans hsteady'.globals.symm)
    · rw [h.supply]
    · rcases ho with hold | hnew
      · exact Nat.lt_of_lt_of_le (h.used o hold) hle
      · exact (haddressed o hnew).2.2.2
    · show (runCompiled budget session.machine c).2.locals[id]? = none
      rw [hsteady.locals, getElem?_learn, hnone id (.inr hid), Option.none_or]
      exact (h.unused id (Nat.le_trans hle hid)).1
    · show (runDirectly budget session'.machine c).2.locals[id]? = none
      rw [hsteady'.locals, getElem?_learn, hnone' id (.inr hid), Option.none_or]
      exact (h.unused id (Nat.le_trans hle hid)).2

theorem report (h : session.ReadAs known session') (budget : Nat) (source : String) :
    (session'.directReport budget source).1 = (session.report budget source).1 ∧
      ∃ known', (session.report budget source).2.ReadAs known'
        (session'.directReport budget source).2 := by
  obtain ⟨hending, known', hafter⟩ := h.step budget source
  refine ⟨?_, known', hafter⟩
  simp only [Session.directReport, Session.report, Session.lines]
  rw [hending, hafter.machine.output, h.machine.output]

theorem directReports_eq (h : session.ReadAs known session') (budget : Nat)
    (sources : List String) :
    session'.directReports budget sources = session.reports budget sources := by
  induction sources generalizing known session session' with
  | nil => rfl
  | cons source sources ih =>
    obtain ⟨hreport, known', hafter⟩ := h.report budget source
    simp only [Session.directReports, Session.reports]
    rw [hreport, ih hafter]

theorem afterAll (h : session.ReadAs known session') (budget : Nat) (sources : List String) :
    ∃ known', (session.afterAll budget sources).ReadAs known'
      (session'.directAfterAll budget sources) := by
  induction sources generalizing known session session' with
  | nil => exact ⟨known, h⟩
  | cons source sources ih =>
    obtain ⟨-, known', hafter⟩ := h.step budget source
    exact ih hafter

end ReadAs

variable {budget limit : Nat} {output : Output} {sources : List String}

theorem readAs_initial (limit : Nat) (output : Output) :
    (Session.initial limit output).ReadAs (fun _ => False) (Session.initial limit output) where
  machine :=
    { store := Store.readAs_initial _
      globals := rfl
      callDepth := rfl
      maxCallDepth := rfl
      output := rfl
      locals := fun _ ho => ho.elim
      locals' := fun _ ho => ho.elim }
  current := rfl
  current' := rfl
  supply := rfl
  used _ ho := ho.elim
  unused _ _ := ⟨Std.TreeMap.getElem?_emptyc, Std.TreeMap.getElem?_emptyc⟩

/-- What is begun in the course of a session is begun in both readings. -/
theorem Begins.directly {n : Nat} {t : Task} {m : Machine}
    (h : (Session.initial limit output).Begins budget sources n t m) :
    ∃ known m', (Session.initial limit output).DirectlyBegins budget sources n t m' ∧
      m.ReadAs known m' ∧ t.Aligned known m m' := by
  obtain ⟨c, m₀, ⟨before, source, rest, hsources, hcompile, rfl⟩, hbegins⟩ := h
  obtain ⟨known, hafter⟩ := (readAs_initial limit output).afterAll budget before
  obtain ⟨m', hbegins', hm, ht⟩ := (hafter.startsAlike hcompile).directly hbegins
  refine ⟨_, m', ⟨before, source, rest, c, hsources, ?_, hbegins'⟩, hm, ht⟩
  rw [hafter.supply]
  exact hcompile

end Session

end Lox
