import Lox.Proofs.Matching.Compiling
import Lox.Proofs.Matching.Numbers
import Lox.Proofs.Matching.Programs

/-!
# Sessions with other numbers

Two sessions run the same texts in step if their machines are in step and the numbers that
are left correspond.  A text that does not compile only uses up numbers, and so the texts
after it do the same as if it had never been there (`refused_leaves_no_trace`).

**Shifting.** The numbers in use before the text stay the same, and the ones given after it
are larger by as many as the text used up.  The functions of both kinds of texts live in one
store.
-/

namespace Lox

open Run

/-! ## Numbers in step -/

/-- Two machines that differ in numbers only. -/
def Coupling.renumbered (μ : Matching) : Coupling where
  matching := μ
  slack := 0
  limit := Eq
  output := Eq
  cut _ _ _ := False

theorem Coupling.renumbered_isLawful {μ : Matching} (hμ : μ.IsInjective) :
    (Coupling.renumbered μ).IsLawful where
  injective := hμ
  print := by
    rintro o o' line rfl
    exact .inl ⟨rfl, rfl⟩
  exhausted := .inl rfl
  overflow _ _ h := .inl h
  grows _ _ _ _ h _ := h

/-- Matching statements run in step, with the same budget. -/
theorem couples_renumbered {μ : Matching} (hμ : μ.IsInjective) (budget : Nat) {m m' : Machine}
    (hm : m.Coupled (.renumbered μ) m') {ss ss' : List Stmt} (hss : Stmt.MatchesAll μ ss ss') :
    Couples (.renumbered μ) (fun _ _ => True) (statements budget ss m)
      (statements budget ss' m') := by
  have hends := couples_statements (Coupling.renumbered_isLawful hμ) budget hm hss
  rwa [show (Coupling.renumbered μ).slack + budget = budget from Nat.zero_add budget] at hends

/-- Programs whose statements run in step end alike: neither of them is cut short. -/
theorem runCompiled_renumbered {μ : Matching} {budget : Nat} {m m' : Machine} {c c' : Compiled}
    (h : Couples (.renumbered μ) (fun _ _ => True)
      (statements budget c.program.statements (m.learn c.locals))
      (statements budget c'.program.statements (m'.learn c'.locals))) :
    let run := Session.runCompiled budget m c
    let run' := Session.runCompiled budget m' c'
    run.1.Matches μ run'.1 ∧ run.2.Coupled (.renumbered μ) run'.2 := by
  rcases h.runCompiled with hends | ⟨_, _, hcut⟩
  · exact hends
  · exact hcut.elim

/-- Numbers in use are the same; from the supply on they are larger by some amounts. -/
def Matching.shift (supply : Supply) (nodes functions : Nat) : Matching where
  node i i' := i < supply.node ∧ i' = i ∨ supply.node ≤ i ∧ i' = i + nodes
  function i i' := i < supply.function ∧ i' = i ∨ supply.function ≤ i ∧ i' = i + functions
  span := Eq

/-- Numbers correspond one to one, and places are kept. -/
structure Matching.IsRenumbering (μ : Matching) : Prop where
  /-- Only equal places correspond. -/
  places : μ.KeepsPlaces
  /-- Numbers of expressions correspond one to one. -/
  oneToOne : μ.IsOneToOne
  /-- So do numbers of functions. -/
  injective : μ.IsInjective

/-- Numbers from two supplies correspond one by one. -/
def Matching.between (supply supply' : Supply) : Matching where
  node i i' := ∃ j, i = supply.node + j ∧ i' = supply'.node + j
  function i i' := ∃ j, i = supply.function + j ∧ i' = supply'.function + j
  span := Eq

theorem Matching.isRenumbering_between (supply supply' : Supply) :
    (Matching.between supply supply').IsRenumbering where
  places _ _ := Iff.rfl
  oneToOne := by
    rintro i i' j j' ⟨k, rfl, rfl⟩ ⟨l, rfl, rfl⟩
    omega
  injective := by
    rintro i i' j j' ⟨k, rfl, rfl⟩ ⟨l, rfl, rfl⟩
    omega

theorem Supply.matches_between (supply supply' : Supply) :
    supply.Matches (.between supply supply') supply' where
  node j := ⟨j, rfl, rfl⟩
  function j := ⟨j, rfl, rfl⟩

/-- Whether a text compiles does not depend on the numbers. -/
theorem compile_between (supply supply' : Supply) (source : String) :
    CompiledAlike (.between supply supply') (compile supply source).result
      (compile supply' source).result :=
  have hμ := Matching.isRenumbering_between supply supply'
  (compile_alike hμ.places hμ.oneToOne (supply.matches_between supply') source).1

theorem compile_error_of_error {supply : Supply} {source : String} {errors : List CompileError}
    (h : (compile supply source).result = .error errors) (supply' : Supply) :
    (compile supply' source).result = .error errors := by
  have halike := compile_between supply supply' source
  rw [h] at halike
  generalize (compile supply' source).result = r' at halike ⊢
  cases halike
  rfl

theorem exists_compile_of_ok {supply : Supply} {source : String} {c : Compiled}
    (h : (compile supply source).result = .ok c) (supply' : Supply) :
    ∃ c', (compile supply' source).result = .ok c' := by
  have halike := compile_between supply supply' source
  rw [h] at halike
  generalize (compile supply' source).result = r' at halike ⊢
  cases halike
  exact ⟨_, rfl⟩

section

variable (supply : Supply) (nodes functions : Nat)

theorem Matching.isRenumbering_shift : (Matching.shift supply nodes functions).IsRenumbering where
  places _ _ := Iff.rfl
  oneToOne := by
    rintro i i' j j' (⟨hi, rfl⟩ | ⟨hi, rfl⟩) (⟨hj, rfl⟩ | ⟨hj, rfl⟩) <;> omega
  injective := by
    rintro i i' j j' (⟨hi, rfl⟩ | ⟨hi, rfl⟩) (⟨hj, rfl⟩ | ⟨hj, rfl⟩) <;> omega

theorem Supply.matches_shift : supply.Matches (.shift supply nodes functions)
    ⟨supply.node + nodes, supply.function + functions⟩ where
  node j := .inr ⟨Nat.le_add_right _ j, by rw [Nat.add_right_comm]⟩
  function j := .inr ⟨Nat.le_add_right _ j, by rw [Nat.add_right_comm]⟩

end

/-! ## Sessions in step -/

namespace Session

/-- The machines are in step, and the numbers that are left correspond. -/
structure Matches (μ : Matching) (session session' : Session) : Prop where
  /-- The machines are in step. -/
  machine : session.machine.Coupled (.renumbered μ) session'.machine
  /-- The numbers that are left correspond. -/
  supply : session.supply.Matches μ session'.supply

variable {μ : Matching} {session session' : Session}

/-- Matching programs end alike and leave machines in step. -/
theorem runCompiled_matches (hμ : μ.IsRenumbering) (budget : Nat) {m m' : Machine}
    (hm : m.Coupled (.renumbered μ) m') {c c' : Compiled} (hc : c.Matches μ c') :
    (runCompiled budget m' c').1 = (runCompiled budget m c).1 ∧
      (runCompiled budget m c).2.Coupled (.renumbered μ) (runCompiled budget m' c').2 := by
  obtain ⟨hending, hend⟩ := runCompiled_renumbered
    (couples_renumbered hμ.injective budget (hm.learn hc.locals) hc.program)
  exact ⟨hending.eq fun span span' h => ((hμ.places span span').1 h).symm, hend⟩

theorem Matches.step (hμ : μ.IsRenumbering) (h : session.Matches μ session') (budget : Nat)
    (source : String) :
    (session'.step budget source).1 = (session.step budget source).1 ∧
      (session.step budget source).2.Matches μ (session'.step budget source).2 := by
  obtain ⟨halike, hsupply⟩ := compile_alike hμ.places hμ.oneToOne h.supply source
  generalize hr : (compile session.supply source).result = r at halike
  generalize hr' : (compile session'.supply source).result = r' at halike
  cases halike with
  | ok hc =>
    obtain ⟨hending, hm⟩ := runCompiled_matches hμ budget h.machine hc
    rw [step_of_ok hr, step_of_ok hr']
    exact ⟨hending, hm, hsupply⟩
  | error =>
    rw [step_of_error hr, step_of_error hr']
    exact ⟨rfl, h.machine, hsupply⟩

theorem Matches.report (hμ : μ.IsRenumbering) (h : session.Matches μ session') (budget : Nat)
    (source : String) :
    (session'.report budget source).1 = (session.report budget source).1 ∧
      (session.report budget source).2.Matches μ (session'.report budget source).2 := by
  obtain ⟨hending, hafter⟩ := h.step hμ budget source
  have hbefore : session.machine.output = session'.machine.output := h.machine.output
  have houtput : (session.step budget source).2.machine.output =
      (session'.step budget source).2.machine.output := hafter.machine.output
  refine ⟨?_, hafter⟩
  simp only [Session.report, Session.lines, hending, hbefore, houtput]

theorem reports_cons (budget : Nat) (session : Session) (source : String)
    (sources : List String) :
    session.reports budget (source :: sources) =
      (session.report budget source).1 :: (session.report budget source).2.reports budget sources :=
  rfl

/-- Sessions in step report the same of any texts. -/
theorem Matches.reports_eq (hμ : μ.IsRenumbering) (h : session.Matches μ session')
    (budget : Nat) (sources : List String) :
    session'.reports budget sources = session.reports budget sources := by
  induction sources generalizing session session' with
  | nil => rfl
  | cons source sources ih =>
    obtain ⟨hreport, hafter⟩ := h.report hμ budget source
    rw [reports_cons, reports_cons, hreport, ih hafter]

theorem reports_append (budget : Nat) (session : Session) (sources more : List String) :
    session.reports budget (sources ++ more) =
      session.reports budget sources ++ (session.afterAll budget sources).reports budget more := by
  induction sources generalizing session with
  | nil => rfl
  | cons source sources ih =>
    rw [List.cons_append, reports_cons, reports_cons, ih]
    rfl

theorem length_reports (budget : Nat) (session : Session) (sources : List String) :
    (session.reports budget sources).length = sources.length := by
  induction sources generalizing session with
  | nil => rfl
  | cons source sources ih => rw [reports_cons, List.length_cons, List.length_cons, ih]

end Session

/-! ## Numbers in use -/

/-- Compiling a text uses up some numbers of either kind. -/
theorem compile_supply_eq (supply : Supply) (source : String) :
    ∃ nodes functions, (compile supply source).supply =
      ⟨supply.node + nodes, supply.function + functions⟩ := by
  obtain ⟨nodes, hnodes⟩ := Nat.exists_eq_add_of_le (supply_le_compile .expression supply source)
  obtain ⟨functions, hfunctions⟩ :=
    Nat.exists_eq_add_of_le (supply_le_compile .function supply source)
  exact ⟨nodes, functions, congrArg₂ Supply.mk hnodes hfunctions⟩

/-- A program matches itself as long as its numbers are not shifted. -/
theorem Compiled.matches_shift {supply supply' : Supply} {source : String} {c : Compiled}
    (h : (compile supply' source).result = .ok c)
    (hle : ∀ k : Numbered, k.next (compile supply' source).supply ≤ k.next supply)
    (nodes functions : Nat) : c.Matches (.shift supply nodes functions) c where
  program := by
    refine Stmt.matchesAll_self (fun _ => rfl) _ (fun i hi => ?_) fun i hi => ?_
    · exact .inl ⟨Nat.lt_of_lt_of_le (number_mem_range_of_compile (k := .expression) h hi).2
        (hle .expression), rfl⟩
    · exact .inl ⟨Nat.lt_of_lt_of_le (number_mem_range_of_compile (k := .function) h hi).2
        (hle .function), rfl⟩
  locals := by
    obtain ⟨-, -, hnone⟩ := addressed_of_compile h
    have hle : (compile supply' source).supply.node ≤ supply.node := hle .expression
    rintro i i' (⟨-, rfl⟩ | ⟨hi, rfl⟩)
    · rfl
    · rw [hnone i (.inr (Nat.le_trans hle hi)),
        hnone (i + nodes) (.inr (Nat.le_trans hle (Nat.le_trans hi (Nat.le_add_right _ _))))]

namespace Session

theorem next_le_afterAll (k : Numbered) (budget : Nat) (session : Session)
    (sources : List String) :
    k.next session.supply ≤ k.next (session.afterAll budget sources).supply := by
  induction sources generalizing session with
  | nil => exact Nat.le_refl _
  | cons source sources ih =>
    have hstep := supply_le_compile k session.supply source
    rw [← supply_step budget session source] at hstep
    exact Nat.le_trans hstep (ih _)

/-- Whatever texts have been run, the machine is in step with itself if only numbers that
they have not used are shifted. -/
theorem coupled_afterAll (budget : Nat) {session : Session} {sources : List String}
    {supply : Supply} (hsupply : (session.afterAll budget sources).supply = supply)
    (nodes functions : Nat)
    (hm : session.machine.Coupled (.renumbered (.shift supply nodes functions)) session.machine) :
    (session.afterAll budget sources).machine.Coupled (.renumbered (.shift supply nodes functions))
      (session.afterAll budget sources).machine := by
  induction sources generalizing session with
  | nil => exact hm
  | cons source sources ih =>
    refine ih hsupply ?_
    dsimp only
    cases h : (compile session.supply source).result with
    | error errors =>
      rw [step_of_error h]
      exact hm
    | ok c =>
      have hle (k : Numbered) : k.next (compile session.supply source).supply ≤ k.next supply := by
        rw [← supply_step budget session source, ← hsupply]
        exact next_le_afterAll k budget _ sources
      rw [step_of_ok h]
      exact (runCompiled_matches (Matching.isRenumbering_shift _ _ _) budget hm
        (Compiled.matches_shift h hle nodes functions)).2

theorem report_of_error {budget : Nat} {session : Session} {source : String}
    {errors : List CompileError} (h : (compile session.supply source).result = .error errors) :
    session.report budget source = (⟨.refused errors, []⟩,
      { session with supply := (compile session.supply source).supply }) := by
  simp [Session.report, step_of_error h, Session.lines]

/-- After some texts, a text that does not compile changes no report of a later text. -/
theorem reports_of_error {budget : Nat} {start : Session} {before : List String}
    (hstart : ∀ supply nodes functions,
      start.machine.Coupled (.renumbered (.shift supply nodes functions)) start.machine)
    {source : String} {errors : List CompileError}
    (h : (compile (start.afterAll budget before).supply source).result = .error errors)
    (after : List String) :
    start.reports budget (before ++ source :: after) = start.reports budget before ++
      ⟨.refused errors, []⟩ :: (start.afterAll budget before).reports budget after := by
  rw [reports_append, reports_cons, report_of_error h]
  generalize hsession : start.afterAll budget before = session
  obtain ⟨nodes, functions, hsupply⟩ := compile_supply_eq session.supply source
  have hmatches : session.Matches (.shift session.supply nodes functions)
      { session with supply := (compile session.supply source).supply } := by
    constructor
    · rw [← hsession]
      exact coupled_afterAll budget rfl nodes functions (hstart _ _ _)
    · rw [hsupply]
      exact Supply.matches_shift session.supply nodes functions
  rw [hmatches.reports_eq (Matching.isRenumbering_shift _ _ _)]

/-- **A text that does not compile leaves no trace.**  Run in the course of a session, it
reports its errors and prints nothing.  Without it, the session reports the same of every
other text. -/
theorem refused_leaves_no_trace (budget limit : Nat) (output : Output) (supply : Supply)
    (before after : List String) {supply' : Supply} {source : String} {errors : List CompileError}
    (hrefused : (compile supply' source).result = .error errors) :
    let start : Session := ⟨Machine.initial limit output, supply⟩
    let reports := start.reports budget (before ++ source :: after)
    reports[before.length]? = some ⟨.refused errors, []⟩ ∧
      reports.eraseIdx before.length = start.reports budget (before ++ after) := by
  intro start reports
  have herror := compile_error_of_error hrefused (start.afterAll budget before).supply
  have hreports : reports = start.reports budget before ++
      ⟨.refused errors, []⟩ :: (start.afterAll budget before).reports budget after :=
    reports_of_error (fun _ _ _ => Machine.coupled_initial rfl rfl) herror after
  have hlength := length_reports budget start before
  rw [hreports, reports_append, ← hlength]
  constructor
  · simp
  · rw [List.eraseIdx_append_of_length_le (Nat.le_refl _), Nat.sub_self]
    rfl

/-- A function that was declared before a text with an error can be called after it. -/
theorem refused_leaves_no_trace_call :
    ∃ errors, (compile .initial "f(;").result = .error errors ∧
      let start : Session := ⟨Machine.initial 9 .capturing, .initial⟩
      let reports := start.reports 20 ["fun f() \x7b return \"x\"; \x7d", "f(;", "print f();"]
      reports.map Report.printed = [[], [], ["x"]] ∧
      reports[1]? = some ⟨.refused errors, []⟩ ∧
      reports.eraseIdx 1 = start.reports 20 ["fun f() \x7b return \"x\"; \x7d", "print f();"] := by
  have hrefused : (compile .initial "f(;").result =
      .error [.parse (.expected .expression) ⟨.semicolon, ";", none, ⟨2, 1, 1⟩⟩] := rfl
  obtain ⟨hreport, hothers⟩ := refused_leaves_no_trace 20 9 .capturing .initial
    ["fun f() \x7b return \"x\"; \x7d"] ["print f();"] hrefused
  exact ⟨_, hrefused, by decide +kernel, hreport, hothers⟩

end Session

end Lox
