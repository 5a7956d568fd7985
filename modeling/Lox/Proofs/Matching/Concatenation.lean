import Lox.Proofs.Matching.Joining
import Lox.Proofs.Matching.Sessions

/-!
# A session is the concatenation of its programs

If a text finishes, the next text of the session does what is left of the text with one
behind the other (`session_is_concatenation`).

**Distances.** The session learns the distances of the second program after it has run the
first one, while the whole program knows all of them from the beginning.  That makes no
difference: the first program never looks up a name of the second one, and its functions
keep their numbers when they are called later.
-/

namespace Lox

open Run

/-! ## Programs behind one another -/

theorem statements_of_finished {budget : Nat} {m m₁ : Machine} {c : Compiled}
    (h : Session.runCompiled budget m c = (.finished, m₁)) :
    statements budget c.program.statements (m.learn c.locals) = .ok () m₁ := by
  rw [Session.runCompiled, program_apply] at h
  split at h
  · next heq =>
    cases h
    exact heq
  · cases h
  · cases h

theorem Matching.isInjective_of_eq {μ : Matching} (h : μ.function = Eq) : μ.IsInjective := by
  intro i i' j j' hi hj
  rw [h] at hi hj
  rw [hi, hj]

/-- When the first of two programs has finished, the second one does what is left of both. -/
theorem Compiled.Joins.runCompiled {c c' both : Compiled} (hjoins : c.Joins c' both)
    (budget : Nat) {m m₁ : Machine} (hm : m.Coupled (.renumbered (.outside c'.locals)) m)
    (hfinished : Session.runCompiled budget m c = (.finished, m₁)) :
    let run := Session.runCompiled budget m₁ c'
    let run' := Session.runCompiled budget m both
    run'.1 = run.1 ∧ run'.2.output = run.2.output := by
  have hrun := statements_of_finished hfinished
  -- the first program runs alike if all distances are known
  have hlearnt : (m.learn c.locals).Coupled (.renumbered (.outside c'.locals))
      (m.learn both.locals) := by
    apply hm.learn
    rintro i i' ⟨rfl, hnone⟩
    rw [hjoins.locals, hnone, Option.none_or]
  have hends := couples_renumbered (Matching.isInjective_of_eq rfl) budget hlearnt
    (Stmt.matchesAll_outside hjoins.apart)
  generalize hrun' : Run.statements budget c.program.statements (m.learn both.locals) = o at hends
  rw [hrun] at hends
  cases hends with
  | @ok _ _ _ m₁' hm₁ _ =>
    have hsteady : (m.learn c.locals).Steady m₁ := (keeps_statements budget _).of_ok hrun
    have hsteady' : (m.learn both.locals).Steady m₁' := (keeps_statements budget _).of_ok hrun'
    have hrefines : (Matching.outside c'.locals).Refines .same :=
      ⟨fun hi => hi.1, fun hi => hi, fun hspan => hspan⟩
    -- then the distances of the second program complete those of the first one
    have hsecond : (m₁.learn c'.locals).Coupled (.renumbered .same) m₁' :=
      { hm₁ with
        store := hm₁.store.mono hrefines
        locals := by
          rintro i i' rfl
          rw [hsteady'.locals, getElem?_learn, hjoins.locals, getElem?_learn, hsteady.locals,
            getElem?_learn, Option.or_assoc] }
    have hboth : Run.statements budget both.program.statements (m.learn both.locals) =
        Run.statements budget c'.program.statements m₁' := by
      rw [hjoins.statements, statements_append, bind_of_ok hrun']
    have hrest := couples_renumbered (Matching.isInjective_of_eq rfl) budget hsecond
      (Stmt.matchesAll_same c'.program.statements)
    rw [← hboth] at hrest
    obtain ⟨hending, hend⟩ := runCompiled_renumbered hrest
    have houtput : (Session.runCompiled budget m₁ c').2.output =
        (Session.runCompiled budget m both).2.output := hend.output
    exact ⟨hending.eq fun _ _ hspan => Eq.symm hspan, houtput.symm⟩

/-- The program of two texts, one behind the other, ends on a fresh machine as the second
text does after the first one, and leaves the same output. -/
theorem runCompiled_joined {budget limit : Nat} {output : Output} {supply : Supply}
    {source source' : String} {c c' : Compiled} {m : Machine}
    (h : (compile supply source).result = .ok c)
    (h' : (compile (compile supply source).supply source').result = .ok c')
    (hfirst : ¬ ['#', '!'] <+: source'.toList)
    (hfinished : Session.runCompiled budget (Machine.initial limit output) c = (.finished, m))
    (supply' : Supply) :
    ∃ whole : Compiled, ∃ μ : Matching,
      (compile supply' (source ++ "\n" ++ source')).result = .ok whole ∧
      let run := Session.runCompiled budget m c'
      let run' := Session.runCompiled budget (Machine.initial limit output) whole
      run.1.Matches μ run'.1 ∧ run'.2.output = run.2.output := by
  obtain ⟨both, whole, μ, hjoins, hwhole, -, hinjective, hmatches⟩ :=
    compile_joined h h' hfirst supply'
  obtain ⟨hending, houtput⟩ :=
    hjoins.runCompiled budget (Machine.coupled_initial rfl rfl) hfinished
  have hfresh : (Machine.initial limit output).Coupled (.renumbered μ)
      (Machine.initial limit output) := Machine.coupled_initial rfl rfl
  obtain ⟨hending', hm⟩ := runCompiled_renumbered
    (couples_renumbered hinjective budget (hfresh.learn hmatches.locals) hmatches.program)
  rw [hending] at hending'
  have houtput' : (Session.runCompiled budget (Machine.initial limit output) both).2.output =
      (Session.runCompiled budget (Machine.initial limit output) whole).2.output := hm.output
  exact ⟨whole, μ, hwhole, hending', houtput'.symm.trans houtput⟩

/-! ## Sessions -/

/-- Runs that end alike end with the same message. -/
theorem Ending.Matches.message_eq {μ : Matching} {ending ending' : Ending}
    (h : ending.Matches μ ending') :
    ending'.runtimeErrors.map RuntimeError.message =
        ending.runtimeErrors.map RuntimeError.message ∧
      (ending' = .exhausted ↔ ending = .exhausted) := by
  cases h <;> simp [Ending.runtimeErrors, RuntimeError.message]

namespace Session

/-- A program keeps the lines that were printed before it. -/
theorem keeps_lines_runCompiled (budget : Nat) (m : Machine) (c : Compiled) :
    m.output.lines.toList <+: (runCompiled budget m c).2.output.lines.toList := by
  have hgrows := (Run.onward_statements budget c.program.statements).grows (m.learn c.locals)
  rw [← runCompiled_snd] at hgrows
  exact hgrows.keeps_lines

/-- The report of a text that compiles. -/
theorem report_of_ok (budget : Nat) (m : Machine) {supply : Supply} {source : String}
    {c : Compiled} (h : (compile supply source).result = .ok c) :
    let run := runCompiled budget m c
    (⟨m, supply⟩ : Session).report budget source =
      (⟨run.1, run.2.output.lines.toList.drop m.output.lines.size⟩,
        ⟨run.2, (compile supply source).supply⟩) := by
  have hstep : (⟨m, supply⟩ : Session).step budget source = _ := step_of_ok h
  simp [Session.report, hstep, Session.lines]

/-- **A session is the concatenation of its programs.**  Let two texts compile, each on its
own, and let the first one finish on a fresh machine.  Then the text with the second one
behind the first one, and a line feed between them, compiles.  On a fresh machine it prints
what the first text prints and then what the second one prints as the next step of the
session.  It ends with an error if that step does, with the same message, and with none
otherwise. -/
theorem session_is_concatenation (budget limit : Nat) (output : Output)
    {supply supply' : Supply} {source source' : String} {c c' : Compiled}
    (hcompiles : (compile supply source).result = .ok c)
    (hcompiles' : (compile supply' source').result = .ok c')
    (hfirst : ¬ "#!".toList <+: source'.toList) (used used' : Supply)
    (hfinished : ((⟨Machine.initial limit output, used⟩ : Session).report budget source).1.ending =
      .finished) :
    let start : Session := ⟨Machine.initial limit output, used⟩
    let first := start.report budget source
    let second := first.2.report budget source'
    let fresh : Session := ⟨Machine.initial limit output, used'⟩
    let whole := fresh.report budget (source ++ "\n" ++ source')
    (∃ both, (compile used' (source ++ "\n" ++ source')).result = .ok both) ∧
    whole.1.printed = first.1.printed ++ second.1.printed ∧
    whole.1.ending.runtimeErrors.map RuntimeError.message =
      second.1.ending.runtimeErrors.map RuntimeError.message ∧
    (whole.1.ending = .exhausted ↔ second.1.ending = .exhausted) := by
  obtain ⟨c₁, h₁⟩ := exists_compile_of_ok hcompiles used
  obtain ⟨c₂, h₂⟩ := exists_compile_of_ok hcompiles' (compile used source).supply
  have hreport := report_of_ok budget (Machine.initial limit output) h₁
  obtain ⟨ending, m, hrun⟩ :
      ∃ ending m, runCompiled budget (Machine.initial limit output) c₁ = (ending, m) :=
    ⟨_, _, rfl⟩
  simp only [hrun] at hreport
  rw [hreport] at hfinished
  obtain rfl : ending = .finished := hfinished
  obtain ⟨whole, μ, hwhole, hending, houtput⟩ := runCompiled_joined h₁ h₂ hfirst hrun used'
  have hreport' := report_of_ok budget m h₂
  have hreport'' := report_of_ok budget (Machine.initial limit output) hwhole
  simp only [hreport, hreport', hreport'', houtput]
  refine ⟨⟨whole, hwhole⟩, ?_, hending.message_eq⟩
  -- the lines of the first text, and those that the second one adds
  have hlines := keeps_lines_runCompiled budget (Machine.initial limit output) c₁
  rw [hrun] at hlines
  obtain ⟨printed, hprinted⟩ := hlines
  obtain ⟨printed', hprinted'⟩ := keeps_lines_runCompiled budget m c₂
  rw [← hprinted', ← Array.length_toList, ← Array.length_toList, List.drop_left, ← hprinted,
    List.append_assoc]
  have hinitial : (Machine.initial limit output).output = output := rfl
  simp [hinitial]

/-- A function of the first text is called in the second one, which ends with an error. -/
theorem session_is_concatenation_call :
    let source := "fun f(x) \x7b return x; \x7d print f(\"a\"); // no line feed"
    let source' := "print f(\"b\"); g();"
    let start : Session := ⟨Machine.initial 9 .capturing, .initial⟩
    let first := start.report 20 source
    let second := first.2.report 20 source'
    let whole := start.report 20 (source ++ "\n" ++ source')
    (∃ c, (compile .initial source).result = .ok c) ∧
    (∃ c, (compile .initial source').result = .ok c) ∧
    ¬ "#!".toList <+: source'.toList ∧ first.1.ending = .finished ∧
    first.1.printed = ["a"] ∧ second.1.printed = ["b"] ∧ whole.1.printed = ["a", "b"] ∧
    second.1.ending.runtimeErrors.map RuntimeError.message = ["undefined variable 'g'"] ∧
    whole.1.ending.runtimeErrors.map RuntimeError.message = ["undefined variable 'g'"] := by
  intro source source' start first second whole
  have exists_of_isOk (r : Except (List CompileError) Compiled) (h : r.isOk = true) :
      ∃ c, r = .ok c := by
    cases r with
    | ok c => exact ⟨c, rfl⟩
    | error errors => cases h
  have of_match (e : Ending) (h : (match e with | .finished => true | _ => false) = true) :
      e = .finished := by
    cases e with
    | finished => rfl
    | _ => cases h
  obtain ⟨c, hcompiles⟩ := exists_of_isOk (compile .initial source).result (by decide +kernel)
  obtain ⟨c', hcompiles'⟩ := exists_of_isOk (compile .initial source').result (by decide +kernel)
  have hfirst : ¬ "#!".toList <+: source'.toList := by decide +kernel
  have hfinished : first.1.ending = .finished := of_match _ (by decide +kernel)
  have hprinted : first.1.printed = ["a"] := by decide +kernel
  have hprinted' : second.1.printed = ["b"] := by decide +kernel
  have hmessage : second.1.ending.runtimeErrors.map RuntimeError.message =
      ["undefined variable 'g'"] := by decide +kernel
  obtain ⟨-, hwhole, hmessages, -⟩ := session_is_concatenation 20 9 .capturing hcompiles
    hcompiles' hfirst .initial .initial hfinished
  rw [hprinted, hprinted'] at hwhole
  rw [hmessage] at hmessages
  simp only [whole, second, first, start]
  exact ⟨⟨c, hcompiles⟩, ⟨c', hcompiles'⟩, hfirst, hfinished, hprinted, hprinted', hwhole,
    hmessage, hmessages⟩

end Session

end Lox
